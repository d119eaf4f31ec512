import WsChat.Lifetimes
import Mathlib.Algebra.BigOperators.Group.Finset.Basic
import Mathlib.Algebra.Order.BigOperators.Group.Finset

/-! Why the server does not get caught in one of its two loops: the tokens in use were drawn before, and the members
of a room are few. -/
namespace WsChat
open Lib Relation ClientsManager

theorem length_le_mul {α β : Type*} [DecidableEq β] (f : α → β) {l : List α} {s : Finset β} {n : Nat}
    (hf : ∀ a ∈ l, f a ∈ s) (hn : ∀ b ∈ s, (l.countP fun a => f a = b) ≤ n) : l.length ≤ n * s.card := by
  have hsub : (l.map f).toFinset ⊆ s := by
    intro b hb
    obtain ⟨a, ha, rfl⟩ := List.mem_map.mp (List.mem_toFinset.mp hb)
    exact hf a ha
  calc l.length = (l.map f).length := (List.length_map f).symm
    _ = ∑ b ∈ (l.map f).toFinset, (l.map f).count b := (List.sum_toFinset_count_eq_length (l.map f)).symm
    _ ≤ (l.map f).toFinset.card • n := by
        refine Finset.sum_le_card_nsmul _ _ n fun b hb => ?_
        rw [List.count_eq_countP, List.countP_map]
        refine le_trans (le_of_eq (List.countP_congr fun a _ => ?_)) (hn b (hsub hb))
        simp
    _ ≤ n * s.card := by
        rw [Nat.mul_comm]
        exact Nat.mul_le_mul_right n (Finset.card_le_card hsub)

section
variable {env : Env} {w w' : World} {c : ClientPtr} {r : RoomPtr} {k : ConnectionPtr}

theorem Room.members_length_le (h : w.membership.Linked) (r : RoomPtr) :
    (w.roomAt r).members.elems.length ≤ w.manager.clients.length := by
  have hwho : ((w.roomAt r).members.elems.map fun m => (w.memberAt m).client).Nodup := by
    refine List.Nodup.map_on (fun m hm n hn he => ?_) (w.roomAt r).members.nodup
    exact h.unique r m hm n hn he
  have hsub : ∀ c ∈ (w.roomAt r).members.elems.map (fun m => (w.memberAt m).client), c ∈ w.manager.clients := by
    intro c hc
    obtain ⟨m, hm, rfl⟩ := List.mem_map.mp hc
    exact h.registered r m hm
  have hle := (hwho.subperm hsub).length_le
  rwa [List.length_map] at hle

theorem Server.tickClient_hung (h : WF env w) (hc : c ∈ w.manager.clients) (toKick : List ClientPtr) :
    (Server.tickClient env (w, toKick) c).1.hung = w.hung := by
  unfold Server.tickClient
  dsimp only
  split
  · rfl
  · split
    · cases (w.clientAt c).connection with
      | none => rfl
      | some k =>
        have hmark := Server.closeConnection_frame w k
        have hmarked := h.frame hmark
        exact (ClientsManager.makeOrphan_evolves hmarked.indexed hmarked.linked hc).hung.trans hmark.hung
    · split
      · rw [Client.sendPacket_eq]
        rfl
      · rfl

theorem Server.tickClients_hung (h : WF env w) (l toKick : List ClientPtr) (hl : ∀ c ∈ l, c ∈ w.manager.clients) :
    (l.foldl (Server.tickClient env) (w, toKick)).1.hung = w.hung := by
  induction l generalizing w toKick with
  | nil => rfl
  | cons c l ih =>
    have hc := hl c List.mem_cons_self
    obtain ⟨hroutines, hclients, -⟩ := Server.tickClient_spec h hc toKick
    have hsame := Server.tickClient_hung h hc toKick
    rw [List.foldl_cons]
    generalize Server.tickClient env (w, toKick) c = acc at hroutines hclients hsame ⊢
    obtain ⟨w₁, toKick₁⟩ := acc
    have hl₁ : ∀ d ∈ l, d ∈ w₁.manager.clients := by
      intro d hd
      rw [show w₁.manager.clients = w.manager.clients from hclients]
      exact hl d (List.mem_cons_of_mem c hd)
    exact (ih (h.routines hroutines) toKick₁ hl₁).trans hsame

theorem Server.kickOutdated_hung (h : WF env w) (hc : c ∈ w.manager.clients) :
    (Server.kickOutdated env w c).hung = w.hung := by
  unfold Server.kickOutdated
  cases (w.clientAt c).connection with
  | none => exact (ClientsManager.remove_evolves h.indexed h.linked hc).hung
  | some k =>
    have hmark := Server.closeConnection_frame w k
    have hmarked := h.frame hmark
    exact (ClientsManager.remove_evolves hmarked.indexed hmarked.linked hc).hung.trans hmark.hung

theorem Server.kickAll_hung (h : WF env w) {l : List ClientPtr} (hl : ∀ c ∈ l, c ∈ w.manager.clients) (hnd : l.Nodup) :
    (l.foldl (Server.kickOutdated env) w).hung = w.hung := by
  induction l generalizing w with
  | nil => rfl
  | cons c l ih =>
    obtain ⟨hcl, hnd⟩ := List.nodup_cons.mp hnd
    have hc := hl c List.mem_cons_self
    obtain ⟨hroutines, hclients⟩ := Server.kickOutdated_routines h hc
    have hl₁ : ∀ d ∈ l, d ∈ (Server.kickOutdated env w c).manager.clients := by
      intro d hd
      have hnodup : w.manager.clients.Nodup := h.indexed.nodup
      rw [hclients, hnodup.mem_erase_iff]
      exact ⟨fun he => hcl (he ▸ hd), hl d (List.mem_cons_of_mem c hd)⟩
    rw [List.foldl_cons]
    exact (ih (h.routines hroutines) hl₁ hnd).trans (Server.kickOutdated_hung h hc)

theorem Server.onTimer_hung (h : WF env w) : (Server.onTimer env w).hung = w.hung := by
  obtain ⟨hroutines, hnd, hin⟩ := Server.tickClients_routines w.manager.clients [] h (fun c hc => hc) h.indexed.nodup
  unfold Server.onTimer
  exact (Server.kickAll_hung (h.routines hroutines) hin hnd).trans (Server.tickClients_hung h _ _ fun c hc => hc)

theorem Server.onOpen_running {draws : List Token} (h : WF env w) (hh : w.hung = false) (hk : k ∉ w.opened)
    (hdraws : ∃ t ∈ draws, ∀ c ∈ w.manager.clients, (w.clientAt c).token ≠ t.1) :
    (Server.onOpen env { w with opened := k :: w.opened } k draws).hung = false := by
  rw [Server.onOpen_evicted env w hk]
  split
  · exact hh
  · obtain ⟨hpass, hi, hhung, -⟩ := World.arrival_passage h k
    generalize (w.evicted env k).elim (w.arrival env k) (remove env (w.arrival env k)) = w₁ at hpass hi hhung ⊢
    rcases ClientsManager.connect_draws env w₁ k draws with ⟨t, -, -, he⟩ | ⟨hused, -⟩
    · exact he.hung.trans (hhung.trans hh)
    · obtain ⟨t, ht, hfree⟩ := hdraws
      obtain ⟨c, hc⟩ := Option.ne_none_iff_exists'.mp (hused t ht)
      obtain ⟨hc₁, htoken⟩ := (hi.tokenIff t.1 c).mp hc
      have hclients := hpass.clients
      rw [List.append_nil] at hclients
      rw [hclients] at hc₁
      obtain ⟨hcw, hne⟩ := List.mem_filter.mp hc₁
      have hsame := hpass.token c hcw (by simpa using hne)
      exact absurd (hsame.symm.trans htoken) (hfree c hcw)

def World.Roomy (w : World) : Prop := ∀ r ∈ w.rooms, (w.roomAt r).members.elems.length < 2 ^ 32 - 1

theorem Server.onMessage_running (h : WF env w) (hh : w.hung = false) (hroomy : w.Roomy) (k : ConnectionPtr) (msg : Option Json)
    (sv : AuthServices) : (Server.onMessage env sv w k msg).hung = false := by
  cases hfind : findClientByConnection w k with
  | none =>
    rw [Server.onMessage, hfind]
    exact hh
  | some c =>
    obtain ⟨hc, hk⟩ := ClientsManager.findClientByConnection_spec h hfind
    rw [Server.onMessage_packet hfind]
    cases (Act.message k msg sv).packet env with
    | none => exact hh
    | some p =>
      have htouch := w.touch_frame c
      have hk' : ((w.modifyClient c fun cli => { cli with lastPacketTime := w.now }).clientAt c).connection = some k := by
        simpa using hk
      rw [Option.elim_some]
      rcases Packet.process_outcome (h.frame htouch) hc hk' sv p with ⟨-, hs⟩ | ⟨-, ⟨r, hr, hnone⟩, -⟩ | ⟨q, t, -, -, ms, he⟩
      · exact hs.hung.trans (htouch.hung.trans hh)
      · obtain ⟨id, hid⟩ := Room.genNextMemberId_isSome (w := w.modifyClient c fun cli => { cli with lastPacketTime := w.now })
          (hroomy r hr)
        rw [hid] at hnone
        cases hnone
      · exact he.hung.trans (htouch.hung.trans hh)

theorem World.handle_running (h : WF env w) (hh : w.hung = false) (hroomy : w.Roomy) (act : Act)
    (hdraws : ∀ k draws, act = .connected k draws →
      ∃ t ∈ draws, ∀ c ∈ w.manager.clients, (w.clientAt c).token ≠ t.1) : (w.handle env act).hung = false := by
  cases act with
  | connected k draws =>
    by_cases hk : k ∈ w.opened
    · rw [show w.handle env (.connected k draws) = w from if_pos hk]
      exact hh
    · rw [show w.handle env (.connected k draws) = _ from if_neg hk]
      exact Server.onOpen_running h hh hk (hdraws k draws rfl)
  | message k msg sv => exact Server.onMessage_running h hh hroomy k msg sv
  | closed k status =>
    change (Server.onClose env w k status).hung = false
    unfold Server.onClose removeByConnection makeOrphanByConnection
    cases hfind : findClientByConnection w k with
    | none =>
      split
      · exact hh
      · exact hh
    | some c =>
      have hc := (ClientsManager.findClientByConnection_spec h hfind).1
      split
      · exact (ClientsManager.remove_evolves h.indexed h.linked hc).hung.trans hh
      · exact (ClientsManager.makeOrphan_evolves h.indexed h.linked hc).hung.trans hh
  | failed k =>
    change (makeOrphanByConnection env w k).hung = false
    unfold makeOrphanByConnection
    cases hfind : findClientByConnection w k with
    | none => exact hh
    | some c =>
      have hc := (ClientsManager.findClientByConnection_spec h hfind).1
      exact (ClientsManager.makeOrphan_evolves h.indexed h.linked hc).hung.trans hh
  | tick => exact (Server.onTimer_hung h).trans hh
  | save => exact hh
  | restart =>
    obtain ⟨ms, -, he⟩ := World.restart_evolves h.saved
    exact he.hung

def Act.draws : Act → List Bytes
  | .connected _ draws => draws.map Subtype.val
  | _ => []

def Act.addresses (env : Env) : Act → List Bytes
  | .connected k _ => [env.realIp k]
  | _ => []

def drawn (es : List Event) : List Bytes := es.flatMap fun e => e.act.draws

def addresses (env : Env) (es : List Event) : List Bytes := es.flatMap fun e => e.act.addresses env

/-- The server runs, and its clients have tokens that were drawn and addresses that came. -/
structure World.Alive (env : Env) (es : List Event) (w : World) : Prop where
  running : w.hung = false
  tokens : ∀ c ∈ w.manager.clients, (w.clientAt c).token ∈ drawn es
  came : ∀ c ∈ w.manager.clients, (w.clientAt c).lastClientIP ∈ addresses env es

theorem World.Alive.clients_length {es : List Event} (h : w.Alive env es) (hw : WF env w) :
    w.manager.clients.length ≤ 5 * (addresses env es).toFinset.card :=
  length_le_mul (fun c => (w.clientAt c).lastClientIP) (fun c hc => List.mem_toFinset.mpr (h.came c hc))
    fun ip _ => (hw.limited ip).1

theorem World.Alive.roomy {es : List Event} (h : w.Alive env es) (hw : WF env w)
    (hfew : 5 * (addresses env es).toFinset.card < 2 ^ 32 - 1) : w.Roomy :=
  fun r _ => lt_of_le_of_lt ((Room.members_length_le hw.linked r).trans (h.clients_length hw)) hfew

theorem World.fate_connected (h : WF env w) (hc : c ∈ w.manager.clients) {act : Act}
    (hfate : w.fate env c act = .goesOn (some k)) : ∃ d ∈ w.manager.clients, (w.clientAt d).connection = some k := by
  have hstays : w.registry.stays c = .goesOn (some k) → ∃ d ∈ w.manager.clients, (w.clientAt d).connection = some k :=
    fun hs => ⟨c, hc, Fate.goesOn.inj hs⟩
  cases act with
  | connected k' draws =>
    dsimp only [World.fate] at hfate
    split at hfate
    · cases hfate
    · exact hstays hfate
  | message k' msg sv =>
    dsimp only [World.fate] at hfate
    cases hx : w.exchange env k' msg sv with
    | none =>
      rw [hx] at hfate
      exact hstays hfate
    | some pair =>
      obtain ⟨d, t⟩ := pair
      rw [hx] at hfate
      dsimp only at hfate
      split at hfate
      · cases hfate
      · split at hfate
        · cases hfate
          unfold World.exchange at hx
          cases hfind : findClientByConnection w k with
          | none => simp [hfind] at hx
          | some d' => exact ⟨d', ClientsManager.findClientByConnection_spec h hfind⟩
        · exact hstays hfate
  | closed k' status =>
    dsimp only [World.fate] at hfate
    split at hfate
    · split at hfate <;> cases hfate
    · exact hstays hfate
  | failed k' =>
    dsimp only [World.fate] at hfate
    split at hfate
    · cases hfate
    · exact hstays hfate
  | tick =>
    rw [World.fate_tick] at hfate
    split at hfate
    · cases hfate
    · split at hfate
      · cases hfate
      · exact hstays hfate
  | save => exact hstays hfate
  | restart => cases hfate

theorem World.Alive.step {es : List Event} (h : w.Alive env es) (hw : WF env w) (e : Event)
    (hfew : 5 * (addresses env es).toFinset.card < 2 ^ 32 - 1)
    (hdraws : ∀ k draws, e.act = .connected k draws → ∃ t ∈ draws, t.1 ∉ drawn es) :
    (w.step env e).Alive env (es ++ [e]) := by
  have hw₁ : WF env { w with now := e.now } := hw.chore (.clock e.now)
  have hrun : w.step env e = World.handle env { w with now := e.now } e.act := World.step_running h.running e
  obtain ⟨new, hpass, -, hnew⟩ := World.handle_passes hw₁ e.act
  rw [← hrun] at hpass hnew
  have hdrawn : drawn (es ++ [e]) = drawn es ++ e.act.draws := by simp [drawn]
  have hcame : addresses env (es ++ [e]) = addresses env es ++ e.act.addresses env := by simp [addresses]
  have hold : ∀ c ∈ (w.step env e).manager.clients, c ∈ new ∨
      c ∈ w.manager.clients ∧ World.fate env { w with now := e.now } c e.act ≠ .ends := by
    intro c hc
    have hclients : (w.step env e).manager.clients = _ := hpass.clients
    rw [hclients] at hc
    rcases List.mem_append.mp hc with hc | hc
    · obtain ⟨hc, hne⟩ := List.mem_filter.mp hc
      exact .inr ⟨hc, by simpa using hne⟩
    · exact .inl hc
  refine ⟨?_, fun c hc => ?_, fun c hc => ?_⟩
  · rw [hrun]
    refine World.handle_running hw₁ h.running (h.roomy hw hfew) e.act fun k draws he => ?_
    obtain ⟨t, ht, hfree⟩ := hdraws k draws he
    exact ⟨t, ht, fun c hc htoken => hfree (htoken ▸ h.tokens c hc)⟩
  · rw [hdrawn]
    rcases hold c hc with hc | ⟨hc, hne⟩
    · obtain ⟨k, draws, he, -, -, -, -, t, ht, htoken⟩ := (hnew c hc).opens
      rw [htoken, he]
      exact List.mem_append_right _ (List.mem_map.mpr ⟨t, ht, rfl⟩)
    · have hsame : ((w.step env e).clientAt c).token = (w.clientAt c).token := hpass.token c hc hne
      rw [hsame]
      exact List.mem_append_left _ (h.tokens c hc)
  · rw [hcame]
    rcases hold c hc with hc | ⟨hc, hne⟩
    · obtain ⟨k, draws, he, -, -, -, hip, -⟩ := (hnew c hc).opens
      rw [hip, he]
      exact List.mem_append_right _ (List.mem_singleton.mpr rfl)
    · refine List.mem_append_left _ ?_
      cases hfate : World.fate env { w with now := e.now } c e.act with
      | ends => exact absurd hfate hne
      | goesOn conn =>
        cases conn with
        | none =>
          have hsame : ((w.step env e).clientAt c).lastClientIP = (w.clientAt c).lastClientIP :=
            hpass.lastAddress c hc hfate
          rw [hsame]
          exact h.came c hc
        | some k =>
          obtain ⟨d, hd, hdk⟩ := World.fate_connected hw₁ hc hfate
          have hip : ((w.step env e).clientAt c).lastClientIP = env.realIp k := hpass.address c hc k hfate
          have hdip : (w.clientAt d).lastClientIP = env.realIp k := hw.indexed.address d hd k hdk
          rw [hip, ← hdip]
          exact h.came d hd

end

/-- The server never hangs in a run in which every connection that opens draws a token that no earlier one drew, and in
which five clients from each address that came do not fill a room. -/
theorem run_never_hangs (env : Env) (es : List Event)
    (hdraws : ∀ es₁ now k draws es₂, es = es₁ ++ ⟨now, .connected k draws⟩ :: es₂ →
      ∃ t ∈ draws, t.1 ∉ drawn es₁)
    (hfew : 5 * (addresses env es).toFinset.card < 2 ^ 32 - 1) : (run env es).hung = false := by
  suffices halive : (run env es).Alive env es from halive.running
  induction es using List.reverseRecOn with
  | nil => exact ⟨rfl, nofun, nofun⟩
  | append_singleton es e ih =>
    have hfew' : 5 * (addresses env es).toFinset.card < 2 ^ 32 - 1 := by
      have hsub : (addresses env es).toFinset ⊆ (addresses env (es ++ [e])).toFinset := by
        intro ip hip
        rw [List.mem_toFinset] at hip ⊢
        rw [addresses, List.flatMap_append]
        exact List.mem_append_left _ hip
      exact lt_of_le_of_lt (Nat.mul_le_mul_left 5 (Finset.card_le_card hsub)) hfew
    have halive := ih (fun es₁ now k draws es₂ he => hdraws es₁ now k draws (es₂ ++ [e]) (by simp [he])) hfew'
    rw [run_append]
    refine halive.step (wf_run env es) e hfew' fun k draws hact => ?_
    obtain ⟨now, act⟩ := e
    cases hact
    exact hdraws es now k draws [] rfl

theorem run_never_hangs_two :
    (run Sample.surroundings [Sample.opens 0 1 97 Sample.mem_a, Sample.opens 1 2 98 Sample.mem_b,
      Sample.sends 2 1 Sample.login]).hung = false := by
  refine run_never_hangs Sample.surroundings _ ?_ (by decide +kernel)
  intro es₁ now k draws es₂ he
  cases es₁ with
  | nil =>
    cases (List.cons.inj he).1
    exact ⟨Sample.token 97 Sample.mem_a, List.mem_singleton.mpr rfl, nofun⟩
  | cons e₁ es₁ =>
    obtain ⟨hfirst, hrest⟩ := List.cons.inj he
    cases es₁ with
    | nil =>
      cases (List.cons.inj hrest).1
      rw [← hfirst]
      exact ⟨Sample.token 98 Sample.mem_b, List.mem_singleton.mpr rfl, by decide +kernel⟩
    | cons e₂ es₁ =>
      have hrest := (List.cons.inj hrest).2
      cases es₁ with
      | nil => cases (List.cons.inj hrest).1
      | cons e₃ es₁ =>
        have hend := (List.cons.inj hrest).2
        simp at hend

end WsChat
