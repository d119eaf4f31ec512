import WsChat.Replies
import WsChat.Lib.Throwing

/-! What an authentication grants: an identity comes from the record of an account that the
credentials stand for, and the accounts are asked for only after the gate let the address pass. -/
namespace WsChat
open Lib Relation ClientsManager

def Client.identity (cli : Client) : UInt32 × Bytes × Bool × Bytes := (cli.uid, cli.name, cli.isGirl, cli.color)

def DbUserInfo.identity (env : Env) (user : DbUserInfo) : UInt32 × Bytes × Bool × Bytes :=
  (UInt32.ofInt user.uid, user.login, user.gid == 4, PacketAuth.color env user.gid)

/-- The account that a key, an API key or a session stands for. -/
inductive PacketAuth.Designates (env : Env) (sv : AuthServices) (sinid : Option Bytes) (p : PacketAuth) :
    Int → Prop
  | ukey (reply : Bytes) (ht : p.token = []) (hu : p.ukey ≠ [])
      (h : sv.redisGet (utf8 "chat-key-" ++ p.ukey) = .ok (some reply)) : Designates env sv sinid p (streamInt reply)
  | apiKey (uid : Int) (ht : p.token = []) (hu : p.ukey = []) (ha : p.apiKey ≠ []) (hg : sv.gateApiKey = .ok true)
      (h : sv.getUserIdByApiKey p.apiKey = .ok (some uid)) : Designates env sv sinid p uid
  | session (id reply : Bytes) (session : Json) (uid : Int) (ht : p.token = []) (hu : p.ukey = [])
      (ha : p.apiKey = []) (hp : ¬ (p.name ≠ [] ∧ p.password ≠ [])) (hs : sinid = some id)
      (h : sv.redisGet (utf8 "session:" ++ id) = .ok (some reply)) (hj : env.parse (streamWord reply) = some session)
      (huid : PacketAuth.sessionUid session = .ok uid) : Designates env sv sinid p uid

/-- The record of the account that the credentials stand for, or that login and password open. -/
inductive PacketAuth.Proved (env : Env) (sv : AuthServices) (sinid : Option Bytes) (p : PacketAuth) :
    DbUserInfo → Prop
  | account (uid : Int) (info : DbUserInfo) (hd : PacketAuth.Designates env sv sinid p uid) (h0 : uid ≠ 0)
      (h : sv.getUserByUid uid = .ok (some info)) : Proved env sv sinid p { info with uid := uid }
  | password (info : DbUserInfo) (hn : p.name ≠ []) (hp : p.password ≠ []) (hg : sv.gateLogin = .ok true)
      (h : sv.getUserByLoginAndPassword p.name p.password = .ok (some info)) : Proved env sv sinid p info

/-- A lookup by API key or by login and password needs the gate to have let the address pass. -/
def AuthCall.Gated (sv : AuthServices) (ip : Bytes) (earlier : List AuthCall) : AuthCall → Prop
  | .userIdByApiKey _ => .gateAuth ip false ∈ earlier ∧ sv.gateApiKey = .ok true
  | .userByLoginAndPassword _ _ => .gateAuth ip false ∈ earlier ∧ sv.gateLogin = .ok true
  | _ => True

def AuthCall.Fails (sv : AuthServices) (e : ExtFailure) : AuthCall → Prop
  | .userIdByApiKey apiKey => sv.getUserIdByApiKey apiKey = .error e
  | .userByUid uid => sv.getUserByUid uid = .error e
  | .userByLoginAndPassword login password => sv.getUserByLoginAndPassword login password = .error e
  | _ => False

/-- Every call was allowed, and a lookup that failed ended the request. -/
structure AuthRun.Fair {α : Type} (sv : AuthServices) (ip : Bytes) (r : Except AuthExit α) (run : AuthRun) :
    Prop where
  gated : ∀ earlier call later, run.calls = earlier ++ call :: later → call.Gated sv ip earlier
  failed : ∀ call ∈ run.calls, ∀ e, call.Fails sv e → r = .error (.failed e)

section
variable {α : Type} {env : Env} {sv : AuthServices} {ip : Bytes} {sinid : Option Bytes} {p : PacketAuth}
  {run : AuthRun} {c : AuthCall}

theorem AuthRun.Fair.unfailed {a : α} (h : run.Fair sv ip (.ok a)) : ∀ call ∈ run.calls, ∀ e, ¬ call.Fails sv e :=
  fun call hc e hf => by cases h.failed call hc e hf

theorem AuthRun.Fair.ok {β : Type} {a : α} (h : run.Fair sv ip (.ok a)) (r : Except AuthExit β) : run.Fair sv ip r :=
  ⟨h.gated, fun call hc e hf => absurd hf (h.unfailed call hc e)⟩

theorem AuthRun.Fair.error {β : Type} {e : AuthExit} (h : run.Fair sv ip (.error e : Except AuthExit α)) :
    run.Fair sv ip (.error e : Except AuthExit β) :=
  ⟨h.gated, fun call hc e' hf => congrArg Except.error (Except.error.inj (h.failed call hc e' hf))⟩

theorem AuthRun.Fair.init : AuthRun.Fair sv ip (.ok () : Except AuthExit Unit) {} := by
  refine ⟨fun earlier call later he => ?_, fun call hc => by cases hc⟩
  have hlen := congrArg List.length he
  simp at hlen

theorem AuthRun.Fair.call {r : Except AuthExit α} (h : run.Fair sv ip (.ok ())) (hg : c.Gated sv ip run.calls)
    (hf : ∀ e, c.Fails sv e → r = .error (.failed e)) :
    AuthRun.Fair sv ip r { run with calls := run.calls ++ [c] } := by
  refine ⟨fun earlier call later he => ?_, fun call hc e hfail => ?_⟩
  · change run.calls ++ [c] = _ at he
    rcases List.eq_nil_or_concat' later with rfl | ⟨rest, last, rfl⟩
    · obtain ⟨hearlier, hcall⟩ := List.append_inj' he rfl
      cases hcall
      rw [← hearlier]
      exact hg
    · have he' : run.calls ++ [c] = (earlier ++ call :: rest) ++ [last] := by
        rw [he]
        simp
      exact h.gated earlier call rest (List.append_inj' he' rfl).1
  · rcases List.mem_append.mp hc with hc | hc
    · exact absurd hfail (h.unfailed call hc e)
    · cases List.mem_singleton.mp hc
      exact hf e hfail

structure AuthM.Called (sv : AuthServices) (ip : Bytes) (run : AuthRun) (c : AuthCall)
    (outcome : Except ExtFailure α) (r : Except AuthExit α) (run' : AuthRun) : Prop where
  fair : run'.Fair sv ip r
  state : run' = { run with calls := run.calls ++ [c] }
  ok : ∀ a, r = .ok a → outcome = .ok a
  error : ∀ exit, r = .error exit → ∃ e, exit = .failed e ∧ outcome = .error e

theorem AuthM.call_ends (h : run.Fair sv ip (.ok ())) (outcome : Except ExtFailure α) (hg : c.Gated sv ip run.calls)
    (hf : ∀ e, c.Fails sv e → outcome = .error e) :
    Ends (AuthM.call c outcome) run (AuthM.Called sv ip run c outcome) := by
  unfold AuthM.call
  refine ends_bind (P := fun r run' => run' = { run with calls := run.calls ++ [c] } ∧ r = .ok ⟨⟩)
    (ends_modify ⟨rfl, rfl⟩) (fun e s' he => by cases he.2) ?_
  rintro _ _ ⟨rfl, -⟩
  cases outcome with
  | ok a =>
    refine ends_pure ⟨h.call hg fun e he => (by cases hf e he), rfl, fun _ ha => ?_, fun _ he => by cases he⟩
    cases ha
    rfl
  | error e =>
    refine ends_throw ⟨h.call hg fun e' he => ?_, rfl, fun _ ha => (by cases ha), fun _ he => ?_⟩
    · cases hf e' he
      rfl
    · cases he
      exact ⟨e, rfl, rfl⟩

theorem AuthM.gate_ends (h : run.Fair sv ip (.ok ())) (outcome : Except Unit Bool) :
    Ends (AuthM.gate ip outcome) run fun r run' => run'.Fair sv ip r ∧ run'.user = run.user ∧
      (r = .ok () → outcome = .ok true ∧ run'.calls = run.calls ++ [.gateAuth ip false]) ∧
      r ≠ .error (.failed .db) := by
  unfold AuthM.gate AuthM.callStd
  refine ends_bind (AuthM.call_ends h _ trivial fun e he => he.elim) ?_ ?_
  · rintro exit run' ⟨hfair, rfl, -, herror⟩
    obtain ⟨e, rfl, he⟩ := herror exit rfl
    refine ⟨hfair.error, rfl, fun hr => (by cases hr), fun hr => ?_⟩
    cases hr
    cases outcome <;> cases he
  · rintro allowed run' ⟨hfair, rfl, hok, -⟩
    have hallowed : outcome = .ok allowed := by
      have := hok allowed rfl
      cases outcome <;> cases this
      rfl
    cases allowed with
    | true => exact ends_pure ⟨hfair.ok _, rfl, fun _ => ⟨hallowed, rfl⟩, fun hr => by cases hr⟩
    | false => exact ends_throw ⟨hfair.ok _, rfl, fun hr => (by cases hr), fun hr => by cases hr⟩

theorem AuthM.install_ends (h : run.Fair sv ip (.ok ())) (info : DbUserInfo) :
    Ends (AuthM.initUser info >>= fun _ => AuthM.callStd (.gateAuth ip true) sv.resetLogin) run fun r run' =>
      run'.Fair sv ip r ∧ run'.user = some info ∧ (∀ exit, r = .error exit → exit = .failed .std) ∧
        ∀ call ∈ run'.calls, ∀ e, ¬ call.Fails sv e := by
  unfold AuthM.initUser AuthM.callStd
  refine ends_bind (P := fun r run' => r = .ok ⟨⟩ ∧ run' = { run with user := some info })
    (ends_modify ⟨rfl, rfl⟩) (fun e s' he => by cases he.1) ?_
  rintro _ _ ⟨-, rfl⟩
  have hfair : AuthRun.Fair sv ip (.ok () : Except AuthExit Unit) { run with user := some info } :=
    ⟨h.gated, fun call hc e he => absurd he (h.unfailed call hc e)⟩
  refine ends_mono (AuthM.call_ends hfair _ trivial fun e he => he.elim) ?_
  rintro r _ ⟨hfair', rfl, -, herror⟩
  refine ⟨hfair', rfl, fun exit hr => ?_, fun call hc e he => ?_⟩
  · obtain ⟨e, rfl, he⟩ := herror exit hr
    cases hreset : sv.resetLogin with
    | ok _ =>
      rw [hreset] at he
      cases he
    | error _ =>
      rw [hreset] at he
      cases he
      rfl
  · rcases List.mem_append.mp hc with hc | hc
    · exact h.unfailed call hc e he
    · cases List.mem_singleton.mp hc
      exact he

theorem PacketAuth.findUid_ends (env : Env) (sv : AuthServices) (ip : Bytes) (sinid : Option Bytes) (p : PacketAuth) :
    Ends (PacketAuth.findUid env sv ip sinid p) {} fun r run => run.Fair sv ip r ∧ run.user = none ∧
      ∀ uid, r = .ok uid → uid ≠ 0 → PacketAuth.Designates env sv sinid p uid := by
  have hinit : AuthRun.Fair sv ip (.ok () : Except AuthExit Unit) {} := .init
  have hzero : ∀ run : AuthRun, run.Fair sv ip (.ok () : Except AuthExit Unit) → run.user = none →
      Ends (pure 0 : AuthM Int) run fun r run => run.Fair sv ip r ∧ run.user = none ∧
        ∀ uid, r = .ok uid → uid ≠ 0 → PacketAuth.Designates env sv sinid p uid := by
    intro run hfair hu
    refine ends_pure ⟨hfair.ok _, hu, fun uid he h0 => ?_⟩
    cases he
    exact absurd rfl h0
  unfold PacketAuth.findUid
  split
  · exact hzero _ hinit rfl
  · rename_i ht
    have ht : p.token = [] := not_not.mp ht
    split
    · rename_i hu
      dsimp only
      unfold AuthM.callStd
      refine ends_bind (AuthM.call_ends hinit _ trivial fun e he => he.elim) ?_ ?_
      · rintro exit run ⟨hfair, rfl, -, -⟩
        exact ⟨hfair.error, rfl, fun uid he => by cases he⟩
      · rintro reply run ⟨hfair, rfl, hok, -⟩
        cases reply with
        | none => exact hzero _ (hfair.ok _) rfl
        | some reply =>
          refine ends_pure ⟨hfair.ok _, rfl, fun uid he _ => ?_⟩
          cases he
          refine .ukey reply ht hu ?_
          have := hok _ rfl
          cases hget : sv.redisGet (utf8 "chat-key-" ++ p.ukey) <;> rw [hget] at this <;> cases this
          rfl
    · rename_i hu
      have hu : p.ukey = [] := not_not.mp hu
      split
      · rename_i ha
        refine ends_bind (AuthM.gate_ends hinit sv.gateApiKey) ?_ ?_
        · rintro exit run ⟨hfair, huser, -, -⟩
          exact ⟨hfair.error, huser, fun uid he => by cases he⟩
        · rintro _ run ⟨hfair, huser, hgate, -⟩
          obtain ⟨hallowed, hcalls⟩ := hgate rfl
          have hg : (AuthCall.userIdByApiKey p.apiKey).Gated sv ip run.calls := by
            rw [hcalls]
            exact ⟨List.mem_append_right _ (List.mem_singleton_self _), hallowed⟩
          refine ends_bind (AuthM.call_ends hfair _ hg fun e he => he) ?_ ?_
          · rintro exit run' ⟨hfair, rfl, -, -⟩
            exact ⟨hfair.error, huser, fun uid he => by cases he⟩
          · rintro found run' ⟨hfair, rfl, hok, -⟩
            cases found with
            | none => exact hzero _ (hfair.ok _) huser
            | some uid =>
              unfold AuthM.callStd
              refine ends_bind (AuthM.call_ends (hfair.ok _) _ trivial fun e he => he.elim) ?_ ?_
              · rintro exit run' ⟨hfair, rfl, -, -⟩
                exact ⟨hfair.error, huser, fun uid he => by cases he⟩
              · rintro _ run' ⟨hfair, rfl, -, -⟩
                refine ends_pure ⟨hfair.ok _, huser, fun uid' he _ => ?_⟩
                cases he
                exact .apiKey uid ht hu ha hallowed (hok _ rfl)
      · rename_i ha
        have ha : p.apiKey = [] := not_not.mp ha
        split
        · exact hzero _ hinit rfl
        · rename_i hp
          cases sinid with
          | none => exact hzero _ hinit rfl
          | some id =>
            dsimp only
            unfold AuthM.callStd
            refine ends_bind (AuthM.call_ends hinit _ trivial fun e he => he.elim) ?_ ?_
            · rintro exit run ⟨hfair, rfl, -, -⟩
              exact ⟨hfair.error, rfl, fun uid he => by cases he⟩
            · rintro reply run ⟨hfair, rfl, hok, -⟩
              cases reply with
              | none => exact hzero _ (hfair.ok _) rfl
              | some reply =>
                have hget : sv.redisGet (utf8 "session:" ++ id) = .ok (some reply) := by
                  have := hok _ rfl
                  cases hget : sv.redisGet (utf8 "session:" ++ id) <;> rw [hget] at this <;> cases this
                  rfl
                dsimp only
                cases hj : env.parse (streamWord reply) with
                | none => exact hzero _ (hfair.ok _) rfl
                | some session =>
                  dsimp only
                  cases huid : PacketAuth.sessionUid session with
                  | ok uid =>
                    refine ends_pure ⟨hfair.ok _, rfl, fun uid' he _ => ?_⟩
                    cases he
                    exact .session id reply session uid ht hu ha hp rfl hget hj huid
                  | error e => exact ends_throw ⟨hfair.ok _, rfl, fun uid he => by cases he⟩

theorem PacketAuth.authenticate_ends (env : Env) (sv : AuthServices) (ip : Bytes) (sinid : Option Bytes)
    (p : PacketAuth) :
    Ends (PacketAuth.authenticate env sv ip sinid p) {} fun r run => run.Fair sv ip r ∧
      (∀ user ∈ run.user, PacketAuth.Proved env sv sinid p user) ∧
      ((∃ code info, r = .error (.refused code info)) ∨ r = .error (.failed .db) → run.user = none) ∧
      ∀ call ∈ run.calls, ∀ e, call.Fails sv e → run.user = none := by
  unfold PacketAuth.authenticate
  refine ends_bind (PacketAuth.findUid_ends env sv ip sinid p) ?_ ?_
  · rintro exit run ⟨hfair, huser, -⟩
    exact ⟨hfair.error, fun user hu => by simp [huser] at hu, fun _ => huser, fun _ _ _ _ => huser⟩
  · rintro uid run ⟨hfair, huser, hdesignates⟩
    have hdone : ∀ run : AuthRun, run.Fair sv ip (.ok () : Except AuthExit Unit) →
        (∀ user ∈ run.user, PacketAuth.Proved env sv sinid p user) →
        Ends (pure () : AuthM Unit) run fun r run => run.Fair sv ip r ∧
          (∀ user ∈ run.user, PacketAuth.Proved env sv sinid p user) ∧
          ((∃ code info, r = .error (.refused code info)) ∨ r = .error (.failed .db) → run.user = none) ∧
          ∀ call ∈ run.calls, ∀ e, call.Fails sv e → run.user = none := by
      intro run hfair huser
      refine ends_pure ⟨hfair, huser, ?_, fun call hc e he => absurd he (hfair.unfailed call hc e)⟩
      rintro (⟨_, _, hr⟩ | hr) <;> cases hr
    unfold PacketAuth.lookup
    split
    · rename_i h0
      refine ends_bind (AuthM.call_ends (hfair.ok _) _ trivial fun e he => he) ?_ ?_
      · rintro exit run' ⟨hfair, rfl, -, -⟩
        exact ⟨hfair.error, fun user hu => by simp [huser] at hu, fun _ => huser, fun _ _ _ _ => huser⟩
      · rintro found run' ⟨hfair, rfl, hok, -⟩
        cases found with
        | none => exact hdone _ (hfair.ok _) fun user hu => by simp [huser] at hu
        | some info =>
          have hproved := PacketAuth.Proved.account uid info (hdesignates uid rfl h0) h0 (hok _ rfl)
          have hcalm : ∀ call ∈ run.calls ++ [.userByUid uid], ∀ e, ¬ call.Fails sv e := hfair.unfailed
          refine ends_modify ⟨⟨hfair.gated, fun call hc e he => absurd he (hcalm call hc e)⟩, ?_, ?_, ?_⟩
          · intro user hu
            cases hu
            exact hproved
          · rintro (⟨_, _, hr⟩ | hr) <;> cases hr
          · exact fun call hc e he => absurd he (hcalm call hc e)
    · split
      · rename_i hnp
        refine ends_bind (AuthM.gate_ends (hfair.ok _) sv.gateLogin) ?_ ?_
        · rintro exit run' ⟨hfair', huser', -, -⟩
          have hnone : run'.user = none := huser'.trans huser
          exact ⟨hfair'.error, fun user hu => (by simp [hnone] at hu), fun _ => hnone, fun _ _ _ _ => hnone⟩
        · rintro _ run' ⟨hfair', huser', hgate, -⟩
          have hnone : run'.user = none := huser'.trans huser
          obtain ⟨hallowed, hcalls⟩ := hgate rfl
          have hg : (AuthCall.userByLoginAndPassword p.name p.password).Gated sv ip run'.calls := by
            rw [hcalls]
            exact ⟨List.mem_append_right _ (List.mem_singleton_self _), hallowed⟩
          refine ends_bind (AuthM.call_ends hfair' _ hg fun e he => he) ?_ ?_
          · rintro exit run'' ⟨hfair'', rfl, -, -⟩
            exact ⟨hfair''.error, fun user hu => (by simp [hnone] at hu), fun _ => hnone, fun _ _ _ _ => hnone⟩
          · rintro found run'' ⟨hfair'', rfl, hok, -⟩
            cases found with
            | none =>
              exact ends_throw ⟨hfair''.ok _, fun user hu => (by simp [hnone] at hu), fun _ => hnone,
                fun _ _ _ _ => hnone⟩
            | some info =>
              have hproved : PacketAuth.Proved env sv sinid p info := .password info hnp.1 hnp.2 hallowed (hok _ rfl)
              refine ends_mono (AuthM.install_ends (hfair''.ok _) info) ?_
              rintro r run ⟨hfair, hu, herror, hcalm⟩
              refine ⟨hfair, fun user hu' => ?_, ?_, fun call hc e he => absurd he (hcalm call hc e)⟩
              · rw [hu] at hu'
                cases hu'
                exact hproved
              · rintro (⟨_, _, hr⟩ | hr)
                · cases herror _ hr
                · cases herror _ hr
      · exact hdone _ (hfair.ok _) fun user hu => by simp [huser] at hu

variable {w : World} {d : ClientPtr} {k : ConnectionPtr}

/-- The reply once the calls are made, which is an error where the request was refused and where
the database failed and could be reached again. -/
def PacketAuth.response (sv : AuthServices) (w : World) (p : PacketAuth) (d : ClientPtr) :
    Except AuthExit Unit → Packet
  | .error (.refused code info) => p.refuse code info
  | .error (.failed .db) =>
    match sv.reconnect with
    | .ok _ => p.refuse .databaseError (utf8 "Ошибка подключения к БД при авторизации!")
    | .error _ => PacketAuth.reply w p d
  | .error (.failed .std) => PacketAuth.reply w p d
  | .ok _ => PacketAuth.reply w p d

theorem PacketAuth.answer_eq (sv : AuthServices) (p : PacketAuth) (hk : (w.clientAt d).connection = some k)
    (r : Except AuthExit Unit) :
    PacketAuth.answer sv p d r w = w.emit [(k, .packet (PacketAuth.response sv w p d r))] := by
  have hsend : ∀ q, Client.sendPacket w d q = w.emit [(k, .packet q)] := fun q => by
    rw [Client.sendPacket_eq, World.mail, hk]
    rfl
  unfold PacketAuth.answer PacketAuth.response
  cases r with
  | ok _ => exact hsend _
  | error exit =>
    cases exit with
    | refused code info => exact hsend _
    | failed e =>
      cases e with
      | std => exact hsend _
      | db => cases sv.reconnect <;> exact hsend _

theorem PacketAuth.response_cases (sv : AuthServices) (w : World) (p : PacketAuth) (d : ClientPtr)
    (r : Except AuthExit Unit) :
    (∃ a, PacketAuth.response sv w p d r = .auth a) ∨
    (∃ e : PacketError, PacketAuth.response sv w p d r = .error e ∧ e.source = .auth) ∧
      ((∃ code info, r = .error (.refused code info)) ∨ r = .error (.failed .db)) := by
  unfold PacketAuth.response
  cases r with
  | ok _ => exact .inl ⟨_, rfl⟩
  | error exit =>
    cases exit with
    | refused code info => exact .inr ⟨⟨_, rfl, rfl⟩, .inl ⟨_, _, rfl⟩⟩
    | failed e =>
      cases e with
      | std => exact .inl ⟨_, rfl⟩
      | db =>
        cases sv.reconnect with
        | ok _ => exact .inr ⟨⟨_, rfl, rfl⟩, .inr rfl⟩
        | error _ => exact .inl ⟨_, rfl⟩

def PacketAuth.calls (env : Env) (sv : AuthServices) (w : World) (c : ClientPtr) (p : PacketAuth) : List AuthCall :=
  match sv.construct with
  | .error _ => []
  | .ok _ => ((PacketAuth.authenticate env sv (w.clientAt c).lastClientIP
      ((w.clientAt c).connection.bind env.sinid) p).run {}).2.calls

/-- What a request does that takes over no other session: it installs a user who was proved, or
none, and sends one reply. -/
theorem PacketAuth.process_normal (env : Env) (sv : AuthServices) (w : World) (c : ClientPtr) (p : PacketAuth)
    (hk : (w.clientAt c).connection = some k) (ht : sv.construct = .ok () → PacketAuth.target w c p = none) :
    ∃ (r : Except AuthExit Unit) (user : Option DbUserInfo),
      (let w₁ := user.elim w (PacketAuth.initUser env w c)
      PacketAuth.process env sv w c p = w₁.emit [(k, .packet (PacketAuth.response sv w₁ p c r))]) ∧
      AuthRun.Fair sv (w.clientAt c).lastClientIP r { calls := PacketAuth.calls env sv w c p } ∧
      (∀ u ∈ user, PacketAuth.Proved env sv (env.sinid k) p u) ∧
      ((∃ code info, r = .error (.refused code info)) ∨ r = .error (.failed .db) → user = none) ∧
      ∀ call ∈ PacketAuth.calls env sv w c p, ∀ e, call.Fails sv e → user = none := by
  unfold PacketAuth.process PacketAuth.calls
  cases hcon : sv.construct with
  | error _ =>
    refine ⟨.ok (), none, ?_, ⟨fun earlier call later he => ?_, fun call hc => (by cases hc)⟩,
      fun u hu => (by cases hu), fun _ => rfl, fun call hc => (by cases hc)⟩
    · exact PacketAuth.answer_eq sv p hk (.ok ())
    · have hlen := congrArg List.length he
      simp at hlen
  | ok _ =>
    simp only [ht hcon]
    rw [PacketAuth.processLogin_eq]
    have hends := PacketAuth.authenticate_ends env sv (w.clientAt c).lastClientIP (env.sinid k) p
    have hsinid : (w.clientAt c).connection.bind env.sinid = env.sinid k := by rw [hk]; rfl
    rw [hsinid]
    unfold Ends at hends
    generalize (PacketAuth.authenticate env sv _ _ p).run {} = outcome at hends ⊢
    obtain ⟨r, calls, user⟩ := outcome
    obtain ⟨hfair, hproved, hrefused, hfails⟩ := hends
    refine ⟨r, user, ?_, ⟨hfair.gated, hfair.failed⟩, hproved, hrefused, hfails⟩
    dsimp only
    cases user with
    | none => exact PacketAuth.answer_eq sv p hk r
    | some user => exact PacketAuth.answer_eq sv p (by simpa [PacketAuth.initUser] using hk) r

theorem PacketAuth.identity_initUser (env : Env) (w : World) (c : ClientPtr) (user : DbUserInfo) :
    ((PacketAuth.initUser env w c user).clientAt c).identity = user.identity env := by
  simp [PacketAuth.initUser, Client.identity, DbUserInfo.identity]

end

/-- A request for authentication that takes over no other session gets one reply. An error leaves
the identity of the client as it was, and an identity that changed is that of one record, of the
account that the credentials stand for or that login and password open. The database is asked for
an API key or a login and a password after the gate let the address pass. -/
theorem auth_grants_what_was_proved (env : Env) (sv : AuthServices) (w : World) (c : ClientPtr) (k : ConnectionPtr)
    (p : PacketAuth) (hk : (w.clientAt c).connection = some k)
    (ht : sv.construct = .ok () → PacketAuth.target w c p = none) :
    let w' := PacketAuth.process env sv w c p
    (∃ q, w'.sent = w.sent ++ [(k, .packet q)] ∧
      ((∃ a, q = .auth a) ∨
        (∃ e : PacketError, q = .error e ∧ e.source = .auth) ∧ (w'.clientAt c).identity = (w.clientAt c).identity)) ∧
    ((w'.clientAt c).identity ≠ (w.clientAt c).identity →
      ∃ user, PacketAuth.Proved env sv (env.sinid k) p user ∧ (w'.clientAt c).identity = user.identity env) ∧
    ∀ earlier call later, PacketAuth.calls env sv w c p = earlier ++ call :: later →
      call.Gated sv (w.clientAt c).lastClientIP earlier := by
  intro w'
  obtain ⟨r, user, he, hfair, hproved, hrefused, -⟩ := PacketAuth.process_normal env sv w c p hk ht
  change w' = _ at he
  refine ⟨⟨PacketAuth.response sv (user.elim w (PacketAuth.initUser env w c)) p c r, ?_, ?_⟩, fun hne => ?_, hfair.gated⟩
  · rw [he]
    cases user <;> rfl
  · refine (PacketAuth.response_cases sv _ p c r).imp_right fun ⟨herror, hwhy⟩ => ⟨herror, ?_⟩
    rw [he, hrefused hwhy]
    rfl
  · cases user with
    | none =>
      rw [he] at hne
      exact absurd rfl hne
    | some user =>
      refine ⟨user, hproved user rfl, ?_⟩
      rw [he]
      exact PacketAuth.identity_initUser env w c user

theorem auth_grants_what_was_proved_login :
    let w := run Sample.surroundings [Sample.opens 0 1 97 Sample.mem_a]
    let p : PacketAuth := { name := utf8 "login", password := utf8 "secret" }
    let w' := PacketAuth.process Sample.surroundings Sample.bob w ⟨0⟩ p
    (w'.clientAt ⟨0⟩).identity ≠ (w.clientAt ⟨0⟩).identity ∧
      ∃ user, PacketAuth.Proved Sample.surroundings Sample.bob none p user ∧
        (w'.clientAt ⟨0⟩).identity = user.identity Sample.surroundings := by
  intro w p w'
  have h := auth_grants_what_was_proved Sample.surroundings Sample.bob w ⟨0⟩ ⟨1⟩ p (by decide +kernel)
    fun _ => by decide +kernel
  have hne : (w'.clientAt ⟨0⟩).identity ≠ (w.clientAt ⟨0⟩).identity := by decide +kernel
  exact ⟨hne, h.2.1 hne⟩

end WsChat
