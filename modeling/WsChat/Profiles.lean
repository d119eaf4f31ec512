import WsChat.Departures
import WsChat.Nicks

/-! The profile that a member leaves behind in a room, and what its account finds when it comes
back. -/
namespace WsChat
open Lib Relation ClientsManager

structure RoomsKept (w w' : World) : Prop where
  only : ∀ r ∈ w.rooms, ∀ s ∈ w'.rooms, (w'.roomAt s).name = (w.roomAt r).name → s = r
  name : ∀ r ∈ w.rooms, (w'.roomAt r).name = (w.roomAt r).name
  disk : w'.disk = w.disk

section
variable {env : Env} {w w' : World} {c : ClientPtr} {r : RoomPtr} {m : MemberPtr}

theorem Hushed.kept (hl : w.membership.Linked) (h : Hushed w w w') : RoomsKept w w' where
  only := by
    intro r hr s hs hname
    cases h.rooms s hs with
    | inl hold =>
      rw [(h.keeps s (hl.built s hold)).2.name] at hname
      exact hl.names s hold r hr hname
    | inr hnew => exact absurd hname.symm (hnew.free r hr)
  name := fun r hr => (h.keeps r (hl.built r hr)).2.name
  disk := h.disk

theorem Heard.kept (hw : WF env w) (h : Heard env c w w') : RoomsKept w w' := by
  cases h with
  | nothing h => exact h.kept hw.linked
  | said r m style text w₁ hm hc hn hcalm hnow h =>
    rw [Room.say_eq] at h
    generalize hsay : (World.modifyRoom w₁ r _).emit _ = w₂ at h
    have hrooms : w₂.rooms = w₁.rooms := by rw [← hsay]; rfl
    have hbuilt : w₂.membership.built = w₁.membership.built := by rw [← hsay]; rfl
    have hdisk : w₂.disk = w₁.disk := by rw [← hsay]; rfl
    have hname₂ : ∀ s, (w₂.roomAt s).name = (w₁.roomAt s).name := by
      intro s
      rw [← hsay]
      by_cases hs : s = r
      · subst hs
        simp
      · simp [hs]
    have hname : ∀ s ∈ w.rooms, (w'.roomAt s).name = (w.roomAt s).name := by
      intro s hs
      obtain ⟨hb, hlog⟩ := hnow.keeps s (hw.linked.built s hs)
      rw [(h.keeps s (hbuilt ▸ hb)).2.name, hname₂, hlog.name]
    refine ⟨?_, hname, h.disk.trans (hdisk.trans hnow.disk)⟩
    intro t ht s hs he
    cases h.rooms s hs with
    | inl hold =>
      have hin : s ∈ w.rooms := by rwa [hrooms, hcalm.rooms] at hold
      rw [hname s hin] at he
      exact hw.linked.names s hin t ht he
    | inr hnew => exact absurd he.symm (hnew.free t ht)

theorem World.step_kept (hw : WF env w) (hs : Seated w) {e : Event} (hsave : e.act ≠ .save)
    (hrestart : e.act ≠ .restart) : RoomsKept w (w.step env e) := by
  have hw' : WF env { w with now := e.now } := hw.chore (.clock e.now)
  have hs' : Seated { w with now := e.now } := hs.chore hw (.clock e.now)
  have hkept : RoomsKept { w with now := e.now } (w.step env e) := by
    rcases World.step_cases hw e with hroutines | ⟨-, c, hsteps⟩ | ⟨hact, -⟩
    · exact (hroutines.hushed hw').kept hw'.linked
    · exact (hsteps.heard hw' hs').kept hw'
    · exact absurd hact (by simp [hsave, hrestart])
  exact ⟨hkept.only, hkept.name, hkept.disk⟩

/-- The room of the name is there, with the profile of the account. -/
def World.Keeps (w : World) (name : Bytes) (uid : UInt32) (info : MemberInfo) : Prop :=
  ∃ r ∈ w.rooms, (w.roomAt r).name = name ∧ (w.roomAt r).membersInfo.lookup uid = some info

def World.Stores (w : World) (name : Bytes) (uid : UInt32) (info : MemberInfo) : Prop :=
  ∃ w₀ : World, w.disk = Server.serialize w₀ ∧ (∀ r, (w₀.roomAt r).Filed) ∧ w₀.Keeps name uid info

variable {name : Bytes} {uid : UInt32} {info : MemberInfo}

theorem World.Stores.save (h : w.Keeps name uid info) (hfiled : ∀ r, (w.roomAt r).Filed)
    (hdisk : w'.disk = Server.serialize w) : w'.Stores name uid info := ⟨w, hdisk, hfiled, h⟩

theorem World.Stores.restart (h : w.Stores name uid info) : w.restart.Keeps name uid info := by
  obtain ⟨w₀, hdisk, hfiled, r, hr, hname, hlook⟩ := h
  have hloaded := (Server.deserialize_rooms w.fresh w₀).1
  rw [← hdisk] at hloaded
  have hin : (w₀.roomAt r).reloaded ∈ w.restart.rooms.elems.map w.restart.roomAt := by
    exact hloaded.mem_iff.mpr (List.mem_map_of_mem (IterSet.mem_elems.mpr hr))
  obtain ⟨s, hs, he⟩ := List.mem_map.mp hin
  have hsame := (hfiled r).sameRecord
  refine ⟨s, IterSet.mem_elems.mp hs, ?_, ?_⟩
  · rw [he, hsame.name, hname]
  · rw [he, hsame.membersInfo uid, hlook]

theorem World.step_stays (hw : WF env w) (hs : Seated w) {e : Event} (hrestart : e.act ≠ .restart) (hr : r ∈ w.rooms)
    (hstays : ∃ s ∈ (w.step env e).rooms, ((w.step env e).roomAt s).name = (w.roomAt r).name) :
    r ∈ (w.step env e).rooms ∧ ((w.step env e).roomAt r).name = (w.roomAt r).name := by
  by_cases hsave : e.act = .save
  · obtain ⟨now, act⟩ := e
    dsimp only at hsave
    subst hsave
    rw [World.step_save]
    exact ⟨hr, rfl⟩
  · obtain ⟨s, hs', hname⟩ := hstays
    have hsame : s = r := (World.step_kept hw hs hsave hrestart).only r hr s hs' hname
    subst hsame
    exact ⟨hs', hname⟩

theorem Act.isRestart_eq_false {act : Act} (h : act ≠ .restart) : act.isRestart = false := by
  cases act with
  | restart => exact absurd rfl h
  | _ => rfl

theorem World.Keeps.step (hw : WF env w) (hs : Seated w) {e : Event} (hrestart : e.act ≠ .restart) (huid : uid ≠ 0)
    (h : w.Keeps name uid info) (hstays : ∃ r ∈ (w.step env e).rooms, ((w.step env e).roomAt r).name = name)
    (halone : ∀ r ∈ w.rooms, (w.roomAt r).name = name → w.lastLeaver env e r uid = none) :
    (w.step env e).Keeps name uid info := by
  obtain ⟨r, hr, hname, hlook⟩ := h
  obtain ⟨hr', hname'⟩ := World.step_stays hw hs hrestart hr (by rwa [hname])
  have hafter := World.step_lookup hw (Act.isRestart_eq_false hrestart) hr hr' huid
  rw [halone r hr hname, hlook] at hafter
  exact ⟨r, hr', hname'.trans hname, hafter⟩

/-- What happens between two moments of a run: the room of the name stays, and no member of the
account leaves it. -/
structure Undisturbed (env : Env) (before : List Event) (name : Bytes) (uid : UInt32) (es : List Event) : Prop where
  stays : ∀ l l', es = l ++ l' →
    ∃ r ∈ (run env (before ++ l)).rooms, ((run env (before ++ l)).roomAt r).name = name
  alone : ∀ l e l', es = l ++ e :: l' → ∀ r ∈ (run env (before ++ l)).rooms,
    ((run env (before ++ l)).roomAt r).name = name → (run env (before ++ l)).lastLeaver env e r uid = none

/-- And the server is started anew only after the state was saved. -/
structure Interlude (env : Env) (before : List Event) (name : Bytes) (uid : UInt32) (es : List Event) : Prop
    extends Undisturbed env before name uid es where
  saved : ∀ l e l', es = l ++ e :: l' → e.act = .restart → ∃ s ∈ l, s.act = .save

theorem Interlude.keeps {before es : List Event} (h : Interlude env before name uid es) (huid : uid ≠ 0)
    (hstart : (run env before).Keeps name uid info) (l l' : List Event) (hl : es = l ++ l') :
    (run env (before ++ l)).Keeps name uid info ∧
      ((∃ s ∈ l, s.act = .save) → (run env (before ++ l)).Stores name uid info) := by
  induction l using List.reverseRecOn generalizing l' with
  | nil =>
    rw [List.append_nil]
    exact ⟨hstart, fun hs => absurd hs (by simp)⟩
  | append_singleton l e ih =>
    have hcut : es = l ++ e :: l' := by rw [hl, List.append_assoc, List.singleton_append]
    obtain ⟨hkeeps, hstores⟩ := ih (e :: l') hcut
    have hrun : run env (before ++ (l ++ [e])) = (run env (before ++ l)).step env e := by
      rw [← List.append_assoc, run_append]
      rfl
    have hstays := h.stays (l ++ [e]) l' hl
    have halone := h.alone l e l' hcut
    have hsaved := h.saved l e l' hcut
    have hw : WF env (run env (before ++ l)) := wf_run env _
    have hs : Seated (run env (before ++ l)) := seated_run env _
    have hfiled := filed_run env (before ++ l)
    rw [hrun] at hstays ⊢
    generalize run env (before ++ l) = w at *
    by_cases hrestart : e.act = .restart
    · obtain ⟨now, act⟩ := e
      dsimp only at hrestart
      subst hrestart
      rw [World.step_restart]
      have hst : World.Stores { w with now := now } name uid info := hstores (hsaved rfl)
      refine ⟨hst.restart, fun _ => ?_⟩
      have hdisk : (World.restart { w with now := now }).disk = w.disk :=
        World.restart_disk (w := { w with now := now }) hw.saved
      unfold World.Stores
      rw [hdisk]
      exact hst
    · have hnext := hkeeps.step hw hs hrestart huid hstays halone
      refine ⟨hnext, ?_⟩
      intro hsome
      by_cases hsave : e.act = .save
      · obtain ⟨now, act⟩ := e
        dsimp only at hsave
        subst hsave
        rw [World.step_save]
        exact World.Stores.save (w := { w with now := now }) hkeeps hfiled rfl
      · have hold : ∃ s ∈ l, s.act = .save := by
          obtain ⟨s, hs, hact⟩ := hsome
          cases List.mem_append.mp hs with
          | inl hs => exact ⟨s, hs, hact⟩
          | inr hs => exact absurd (List.mem_singleton.mp hs ▸ hact) hsave
        unfold World.Stores
        rw [(World.step_kept hw hs hsave hrestart).disk]
        exact hstores hold

/-- The member may have the nick back: it is one, nobody else has it, and it is not banned, or the
member moderates the room. -/
def Member.MayResume (w : World) (m : MemberPtr) (nick : Bytes) : Prop :=
  nick ≠ [] ∧ Member.Alone w m nick ∧
    (nick ∉ (w.roomAt (w.memberAt m).room).bannedNicks ∨ Member.isModer w m)

instance (w : World) (m : MemberPtr) (nick : Bytes) : Decidable (Member.MayResume w m nick) :=
  inferInstanceAs (Decidable (_ ∧ _ ∧ _))

variable {nick : Bytes} {p : PacketJoin}

theorem Room.findMemberByNick_nil (w : World) (r : RoomPtr) : Room.findMemberByNick w r [] = none := by
  refine List.find?_eq_none.mpr ?_
  intro m _
  simp [Member.hasNick]

theorem PacketJoin.checkNick_eq (hr : (w.memberAt m).room = r) (hnick : (w.memberAt m).nick = []) :
    (PacketJoin.checkNick w r m nick).1 = if Member.MayResume w m nick then nick else [] := by
  have hfree : nick ≠ [] → (Room.findMemberByNick w r nick = none ↔ Member.Alone w m nick) := by
    intro hne
    rw [Room.findMemberByNick_eq_none hne, Member.Alone, hr]
    constructor
    · exact fun h n hn _ => h n hn
    · intro h n hn
      by_cases hself : n = m
      · rw [hself, hnick]
        exact hne.symm
      · exact h n hn hself
  unfold PacketJoin.checkNick
  by_cases hban : (!Member.isModer w m && decide (nick ∈ (w.roomAt r).bannedNicks)) = true
  · have hno : ¬ Member.MayResume w m nick := by
      intro h
      simp only [Bool.and_eq_true, Bool.not_eq_true', decide_eq_true_eq] at hban
      cases h.2.2 with
      | inl hout => exact hout (hr ▸ hban.2)
      | inr hmoder => exact absurd hmoder (by simp [hban.1])
    rw [if_pos hban, if_neg hno]
    dsimp only
    split <;> rfl
  · rw [if_neg hban]
    dsimp only
    have hallowed : nick ∉ (w.roomAt (w.memberAt m).room).bannedNicks ∨ Member.isModer w m := by
      simpa [hr, or_iff_not_imp_right] using hban
    by_cases hnil : nick = []
    · subst hnil
      rw [Room.findMemberByNick_nil]
      simp
    · cases hfind : Room.findMemberByNick w r nick with
      | none =>
        have hmay : Member.MayResume w m nick := ⟨hnil, (hfree hnil).mp hfind, hallowed⟩
        simp [hmay]
      | some n =>
        have hno : ¬ Member.MayResume w m nick := by
          intro h
          rw [(hfree hnil).mpr h.2.1] at hfind
          cases hfind
        simp [hno]

/-- The member as it is after its profile was restored. -/
def Member.resumed (mem : Member) (info : MemberInfo) (nick : Bytes) : Member :=
  { mem with girl := info.girl, color := info.color, nick := nick }

theorem Member.mayResume_congr (hroom : w'.roomAt = w.roomAt) (hclient : w'.clientAt = w.clientAt)
    (hself : (w'.memberAt m).room = (w.memberAt m).room ∧ (w'.memberAt m).client = (w.memberAt m).client)
    (hothers : ∀ n, n ≠ m → w'.memberAt n = w.memberAt n) :
    Member.MayResume w' m nick ↔ Member.MayResume w m nick := by
  have hmoder : Member.isModer w' m = Member.isModer w m :=
    Member.isModer_congr hself.2 hself.1 (by rw [hclient]) (by rw [hroom]) (by rw [hroom])
  have halone : Member.Alone w' m nick ↔ Member.Alone w m nick := by
    unfold Member.Alone
    rw [hroom, hself.1]
    refine forall₂_congr fun n _ => ?_
    refine imp_congr_right fun hne => ?_
    rw [hothers n hne]
  rw [Member.MayResume, Member.MayResume, halone, hmoder, hroom, hself.1]

variable (env) in
theorem PacketJoin.settle_memberAt (hnick : (w.memberAt m).nick = [])
    (hmay : nick = [] ∨ nick ∉ (w.roomAt (w.memberAt m).room).bannedNicks ∨ Member.isModer w m) :
    let w' := PacketJoin.settle env w m nick
    w'.roomAt = w.roomAt ∧ w'.clientAt = w.clientAt ∧
      w'.memberAt = Function.update w.memberAt m { w.memberAt m with nick := nick } := by
  unfold PacketJoin.settle
  dsimp only
  by_cases hnil : nick = []
  · rw [if_pos hnil, Member.sendPacket_eq, Member.sendPacket_eq]
    refine ⟨rfl, rfl, ?_⟩
    have hsame : ({ w.memberAt m with nick := nick } : Member) = w.memberAt m := by
      rw [hnil, ← hnick]
    rw [hsame, Function.update_eq_self]
    rfl
  · rw [if_neg hnil, Member.sendPacket_eq]
    have hne : nick ≠ (w.memberAt m).nick := by rwa [hnick]
    generalize hgreet : w.emit _ = w₁
    have hne₁ : nick ≠ (w₁.memberAt m).nick := by rwa [← hgreet]
    have hmay₁ : nick ∉ (w₁.roomAt (w₁.memberAt m).room).bannedNicks ∨ Member.isModer w₁ m := by
      rw [← hgreet]
      exact hmay.resolve_left hnil
    have hset : ∃ out, Member.setNick env w₁ m nick =
        (w₁.modifyMember m fun mem => { mem with nick := nick }).emit out :=
      Member.setNick_of_may hne₁ hmay₁
    obtain ⟨out, he⟩ := hset
    rw [he, ← hgreet]
    exact ⟨rfl, rfl, rfl⟩

variable (env) in
theorem PacketJoin.welcome_restores (hinfo : Room.getStoredMemberInfo w r m = some info) (hauto : p.autoLogin = true)
    (hr : (w.memberAt m).room = r) (hnick : (w.memberAt m).nick = []) :
    let w' := PacketJoin.welcome env w c r m p
    w'.roomAt = w.roomAt ∧ w'.clientAt = w.clientAt ∧ w'.memberAt = Function.update w.memberAt m
      ((w.memberAt m).resumed info (if Member.MayResume w m info.nick then info.nick else [])) := by
  rw [PacketJoin.welcome_eq]
  dsimp only
  generalize hgreet : w.emit (w.welcomeMail c r m p.sequenceId p.loadHistory) = w₂
  have hrestore : PacketJoin.restore w₂ c r m =
      (info.nick, w₂.modifyMember m fun mem => { mem with girl := info.girl, color := info.color }) := by
    have hstored : Room.getStoredMemberInfo w₂ r m = some info := by rw [← hgreet]; exact hinfo
    unfold PacketJoin.restore
    rw [hstored]
    simp [Member.setColor, Member.setGirl, World.modifyMember]
  have hauto' : PacketJoin.autoNick w₂ c r m p = PacketJoin.checkNick
      (w₂.modifyMember m fun mem => { mem with girl := info.girl, color := info.color }) r m info.nick := by
    unfold PacketJoin.autoNick
    rw [if_pos hauto, hrestore]
  rw [hauto']
  generalize hdress : (w₂.modifyMember m fun mem => { mem with girl := info.girl, color := info.color }) = w₃
  have hroom₃ : w₃.roomAt = w.roomAt := by rw [← hdress, ← hgreet]; rfl
  have hclient₃ : w₃.clientAt = w.clientAt := by rw [← hdress, ← hgreet]; rfl
  have hmember₃ : w₃.memberAt = Function.update w.memberAt m
      { w.memberAt m with girl := info.girl, color := info.color } := by rw [← hdress, ← hgreet]; rfl
  have hself₃ : w₃.memberAt m = { w.memberAt m with girl := info.girl, color := info.color } := by
    rw [hmember₃, Function.update_self]
  have hmay : Member.MayResume w₃ m info.nick ↔ Member.MayResume w m info.nick := by
    refine Member.mayResume_congr hroom₃ hclient₃ ⟨by rw [hself₃], by rw [hself₃]⟩ ?_
    intro n hn
    rw [hmember₃, Function.update_of_ne hn]
  have hkept : (PacketJoin.checkNick w₃ r m info.nick).1 =
      if Member.MayResume w m info.nick then info.nick else [] := by
    rw [PacketJoin.checkNick_eq (by rw [hself₃]; exact hr) (by rw [hself₃]; exact hnick)]
    exact if_congr hmay rfl rfl
  obtain ⟨⟨out, -, he⟩, -⟩ := PacketJoin.checkNick_spec (fun _ => True) w₃ r m info.nick
  rw [hkept, he]
  have hallowed : (if Member.MayResume w m info.nick then info.nick else []) = [] ∨
      (if Member.MayResume w m info.nick then info.nick else []) ∉
        ((w₃.emit out).roomAt ((w₃.emit out).memberAt m).room).bannedNicks ∨ Member.isModer (w₃.emit out) m := by
    by_cases h : Member.MayResume w m info.nick
    · rw [if_pos h]
      exact .inr (hmay.mpr h).2.2
    · exact .inl (if_neg h)
  have hnick₃ : ((w₃.emit out).memberAt m).nick = [] := by
    rw [World.emit_memberAt, hself₃]
    exact hnick
  obtain ⟨hroom, hclient, hmember⟩ := PacketJoin.settle_memberAt env hnick₃ hallowed
  refine ⟨hroom.trans hroom₃, hclient.trans hclient₃, hmember.trans ?_⟩
  change Function.update w₃.memberAt m { w₃.memberAt m with nick := _ } = _
  rw [hself₃, hmember₃, Function.update_idem]
  rfl

theorem PacketJoin.process_admits (hin : m ∈ ((PacketJoin.process env w c p).roomAt r).members)
    (hout : m ∉ (w.roomAt r).members) : Server.getRoomByName w p.target = some r ∧ m = ⟨w.nextMember⟩ ∧
      ∃ id, PacketJoin.process env w c p = PacketJoin.welcome env (w.enter c r id) c r m p := by
  have hnobody : ∀ {w' : World}, w'.roomAt = w.roomAt → ¬ m ∈ (w'.roomAt r).members := by
    intro w' he
    rw [he]
    exact hout
  revert hin
  unfold PacketJoin.process
  cases Client.getRoomByName w c p.target with
  | some s => exact fun hin => absurd hin (hnobody (Client.sendPacket_roomAt w c _))
  | none =>
    cases hroom : Server.getRoomByName w p.target with
    | none => exact fun hin => absurd hin (hnobody (Client.sendPacket_roomAt w c _))
    | some s =>
      dsimp only
      rcases Client.joinRoom_cases w c s with ⟨id, -, hjoin | ⟨e, he, hjoin⟩⟩ | hjoin
      · rw [hjoin]
        dsimp only
        intro hin
        rw [(PacketJoin.welcome_settled (w.enter c s id) c s ⟨w.nextMember⟩ p).roomAt] at hin
        by_cases hrs : r = s
        · subst hrs
          have hnew : m = ⟨w.nextMember⟩ := by simpa [World.enter, hout] using hin
          exact ⟨rfl, hnew, id, by rw [hnew]⟩
        · exact absurd (by simpa [World.enter, hrs] using hin) hout
      · have hissue : ∀ q, m ∉ ((Client.sendPacket (w.issue c s id) c q).roomAt r).members := by
          intro q hin
          rw [Client.sendPacket_roomAt] at hin
          by_cases hrs : r = s
          · subst hrs
            exact hout (by simpa [World.issue] using hin)
          · exact hout (by simpa [World.issue, hrs] using hin)
        rw [hjoin]
        cases e with
        | hung => exact absurd rfl he
        | bannedByIP => exact fun hin => absurd hin (hissue _)
        | bannedByID => exact fun hin => absurd hin (hissue _)
      · rw [hjoin]
        exact fun hin => absurd hin hout

theorem PacketJoin.process_restores (hl : w.membership.Linked) (hauto : p.autoLogin = true)
    (hkeeps : w.Keeps p.target uid info) (huid : uid ≠ 0)
    (hin : m ∈ ((PacketJoin.process env w c p).roomAt r).members) (hout : m ∉ (w.roomAt r).members) :
    let w' := PacketJoin.process env w c p
    (w.clientAt (w'.memberAt m).client).uid = uid →
      (w'.memberAt m).girl = info.girl ∧ (w'.memberAt m).color = info.color ∧
      (w'.memberAt m).nick = if Member.MayResume w' m info.nick then info.nick else [] := by
  obtain ⟨hroom, rfl, id, hprocess⟩ := PacketJoin.process_admits hin hout
  obtain ⟨hr, hname⟩ := Server.mem_of_getRoomByName hroom
  obtain ⟨s, hs, hname', hlook⟩ := hkeeps
  have hsame : s = r := hl.names s hs r hr (hname'.trans hname.symm)
  subst hsame
  intro w' hclient
  have hmember : (w.enter c s id).memberAt ⟨w.nextMember⟩ =
      { id := id, client := c, room := s, lastSeenTime := w.now, status := .online } := by
    simp [World.enter]
  have hwho : (w'.memberAt ⟨w.nextMember⟩).client = c := by
    have hsettled : Settled (w.enter c s id) w' := by
      change Settled (w.enter c s id) (PacketJoin.process env w c p)
      rw [hprocess]
      exact PacketJoin.welcome_settled _ c s _ p
    have hframe := hsettled.frame.membership
    refine (congrArg (fun g => g.who ⟨w.nextMember⟩) hframe).trans ?_
    exact congrArg Member.client hmember
  rw [hwho] at hclient
  have hinfo : Room.getStoredMemberInfo (w.enter c s id) s ⟨w.nextMember⟩ = some info := by
    have huid' : ((w.enter c s id).clientAt c).uid = uid := by
      rw [← hclient]
      exact World.uid_update w c c rfl
    have hsame : ((w.enter c s id).roomAt s).membersInfo = (w.roomAt s).membersInfo := by simp [World.enter]
    unfold Room.getStoredMemberInfo
    rw [hmember, huid', if_neg huid, hsame]
    exact hlook
  obtain ⟨hrooms, hclients, hmembers⟩ :=
    PacketJoin.welcome_restores env hinfo hauto (congrArg Member.room hmember) (congrArg Member.nick hmember)
  rw [← hprocess] at hrooms hclients hmembers
  have hself : w'.memberAt ⟨w.nextMember⟩ = _ := (congrFun hmembers _).trans (Function.update_self ..)
  have hmay : Member.MayResume w' ⟨w.nextMember⟩ info.nick ↔
      Member.MayResume (w.enter c s id) ⟨w.nextMember⟩ info.nick := by
    refine Member.mayResume_congr hrooms hclients ?_ ?_
    · rw [hself]
      exact ⟨rfl, rfl⟩
    · intro n hn
      exact (congrFun hmembers n).trans (Function.update_of_ne hn _ _)
  rw [hself]
  exact ⟨rfl, rfl, if_congr hmay.symm rfl rfl⟩

theorem World.step_restores (hw : WF env w) {e : Event} (hp : e.act.packet env = some (.join p))
    (hauto : p.autoLogin = true) (hkeeps : w.Keeps p.target uid info) (huid : uid ≠ 0) :
    let w' := w.step env e
    m ∈ (w'.roomAt r).members → m ∉ (w.roomAt r).members → (w.clientAt (w'.memberAt m).client).uid = uid →
      (w'.memberAt m).girl = info.girl ∧ (w'.memberAt m).color = info.color ∧
      (w'.memberAt m).nick = if Member.MayResume w' m info.nick then info.nick else [] := by
  have hw' : WF env { w with now := e.now } := hw.chore (.clock e.now)
  obtain ⟨now, act⟩ := e
  cases act with
  | message k msg sv =>
    cases hh : w.hung with
    | true =>
      rw [World.step_hung hh (by simp)]
      exact fun hin hout => absurd hin hout
    | false =>
      rw [World.step_running hh]
      rcases Server.onMessage_cases hw' sv k msg with ⟨-, hdrop⟩ | ⟨c, q, hc, hk, hpacket, hprocess⟩
      · intro w' hin hout
        have hsame : w' = { w with now := now } := hdrop
        rw [hsame] at hin
        exact absurd hin hout
      · have hq : q = .join p := Option.some.inj (hpacket.symm.trans hp)
        subst hq
        intro w' hin hout hclient
        have hsame : w' = PacketJoin.process env
            ({ w with now := now }.modifyClient c fun cli => { cli with lastPacketTime := now }) c p := hprocess
        rw [hsame] at hin hclient ⊢
        have hl : ({ w with now := now }.modifyClient c fun cli =>
            { cli with lastPacketTime := now }).membership.Linked :=
          (hw'.frame (Frame.modifyClient _ c _ rfl rfl rfl rfl)).linked
        refine PacketJoin.process_restores hl hauto hkeeps huid hin hout ?_
        rw [← hclient]
        exact World.uid_update { w with now := now } c _ rfl
  | _ => cases hp

theorem World.Keeps.left (hw : WF env w) (hs : Seated w) {e : Event} (huid : uid ≠ 0)
    (hleaves : w.lastLeaver env e r uid = some m)
    (hstays : ∃ s ∈ (w.step env e).rooms, ((w.step env e).roomAt s).name = (w.roomAt r).name) :
    (w.step env e).Keeps (w.roomAt r).name uid (MemberInfo.ofMember w m) := by
  have hleaver : m ∈ w.leavers env e r := (List.mem_filter.mp (List.mem_of_getLast? hleaves)).1
  have hrestart : e.act ≠ .restart := by
    intro hact
    have hnone : w.leavers env e r = [] := by simp [World.leavers, hact, Act.isRestart]
    rw [hnone] at hleaver
    cases hleaver
  have hr : r ∈ w.rooms := by
    unfold World.leavers at hleaver
    split at hleaver
    · cases hleaver
    · obtain ⟨c, -, hc⟩ := List.mem_filterMap.mp (List.mem_filter.mp hleaver).1
      exact hw.linked.listed r m (Room.mem_of_findMemberByClient hc).1
  obtain ⟨hr', hname⟩ := World.step_stays hw hs hrestart hr hstays
  have hafter := World.step_lookup hw (Act.isRestart_eq_false hrestart) hr hr' huid
  rw [hleaves] at hafter
  exact ⟨r, hr', hname, hafter⟩

end

/-- Whoever left a room and comes back to it, with no one else of the account leaving in between and
no restart without what was saved since, has its looks again, and its nick where it may. -/
theorem run_profile_survives (env : Env) (before : List Event) (e : Event) (between : List Event) (j : Event)
    {r s : RoomPtr} {m m' : MemberPtr} {uid : UInt32} {p : PacketJoin} (huid : uid ≠ 0)
    (hleaves : (run env before).lastLeaver env e r uid = some m)
    (hbetween : Interlude env (before ++ [e]) ((run env before).roomAt r).name uid between)
    (hjoin : j.act.packet env = some (.join p)) (hauto : p.autoLogin = true)
    (htarget : p.target = ((run env before).roomAt r).name) :
    let w := run env before
    let w₁ := run env (before ++ [e] ++ between)
    let w₂ := run env (before ++ [e] ++ between ++ [j])
    m' ∈ (w₂.roomAt s).members → m' ∉ (w₁.roomAt s).members → (w₁.clientAt (w₂.memberAt m').client).uid = uid →
      (w₂.memberAt m').girl = (w.memberAt m).girl ∧ (w₂.memberAt m').color = (w.memberAt m).color ∧
      (w₂.memberAt m').nick = if Member.MayResume w₂ m' (w.memberAt m).nick then (w.memberAt m).nick else [] := by
  have hleft : run env (before ++ [e]) = (run env before).step env e := by
    rw [run_append]
    rfl
  have hstays := hbetween.stays [] between rfl
  rw [List.append_nil, hleft] at hstays
  have hkeeps : (run env (before ++ [e])).Keeps ((run env before).roomAt r).name uid
      (MemberInfo.ofMember (run env before) m) := by
    rw [hleft]
    exact World.Keeps.left (wf_run env before) (seated_run env before) huid hleaves hstays
  have hback := (hbetween.keeps huid hkeeps between [] (List.append_nil between).symm).1
  have hlast : run env (before ++ [e] ++ between ++ [j]) = (run env (before ++ [e] ++ between)).step env j := by
    rw [run_append]
    rfl
  rw [← htarget] at hback
  rw [hlast]
  exact World.step_restores (wf_run env _) hjoin hauto hback huid

def undisturbed (env : Env) (name : Bytes) (uid : UInt32) (w : World) : List Event → Bool
  | [] => w.rooms.elems.any fun r => (w.roomAt r).name == name
  | e :: es => (w.rooms.elems.any fun r => (w.roomAt r).name == name) &&
      (w.rooms.elems.all fun r => (w.roomAt r).name != name || (w.lastLeaver env e r uid).isNone) &&
      undisturbed env name uid (w.step env e) es

theorem Undisturbed.of_check {env : Env} {before es : List Event} {name : Bytes} {uid : UInt32}
    (h : undisturbed env name uid (run env before) es = true) : Undisturbed env before name uid es := by
  have hnamed : ∀ w : World, (w.rooms.elems.any fun r => (w.roomAt r).name == name) = true →
      ∃ r ∈ w.rooms, (w.roomAt r).name = name := by
    intro w hany
    obtain ⟨r, hr, hname⟩ := List.any_eq_true.mp hany
    exact ⟨r, IterSet.mem_elems.mp hr, beq_iff_eq.mp hname⟩
  induction es generalizing before with
  | nil =>
    refine ⟨?_, ?_⟩
    · intro l l' hl
      obtain ⟨rfl, -⟩ := List.append_eq_nil_iff.mp hl.symm
      rw [List.append_nil]
      exact hnamed _ h
    · intro l e l' hl
      simp at hl
  | cons e es ih =>
    simp only [undisturbed, Bool.and_eq_true] at h
    obtain ⟨⟨hname, halone⟩, hrest⟩ := h
    have hstep : run env (before ++ [e]) = (run env before).step env e := by
      rw [run_append]
      rfl
    have hlater : Undisturbed env (before ++ [e]) name uid es := ih (by rw [hstep]; exact hrest)
    refine ⟨?_, ?_⟩
    · intro l l' hl
      cases l with
      | nil =>
        rw [List.append_nil]
        exact hnamed _ hname
      | cons e' l =>
        obtain ⟨rfl, hl'⟩ := List.cons.inj hl
        have hfound := hlater.stays l l' hl'
        rwa [List.append_assoc] at hfound
    · intro l e' l' hl r hr hr'
      cases l with
      | nil =>
        obtain ⟨rfl, -⟩ := List.cons.inj hl
        rw [List.append_nil] at hr hr' ⊢
        have hone := List.all_eq_true.mp halone r (IterSet.mem_elems.mpr hr)
        simpa [hr'] using hone
      | cons e'' l =>
        obtain ⟨rfl, hl'⟩ := List.cons.inj hl
        have hnone := hlater.alone l e' l' hl' r
        rw [List.append_assoc] at hnone
        exact hnone hr hr'

namespace Sample

def visit : List Event :=
  [opens 0 1 97 mem_a, sends 1 1 login, sends 2 1 (ofTarget 8), ⟨3, .save⟩, sends 4 1 (ofTarget 6),
    sends 5 1 (line (utf8 "/nick foo")), sends 6 1 (line (utf8 "/color #f44"))]

def goodbye : Event := sends 7 1 (ofTarget 7)

def restarted : List Event := [⟨9, .restart⟩, opens 10 2 98 mem_b, sends 11 2 login]

def comeback : Event := sends 12 2 (ofTarget 6)

def request : PacketJoin := { target := utf8 "#room", loadHistory := false }

end Sample

theorem run_profile_survives_saved :
    let w₂ := run Sample.surroundings (Sample.visit ++ [Sample.goodbye] ++ (⟨8, .save⟩ :: Sample.restarted) ++
      [Sample.comeback])
    (w₂.memberAt ⟨0⟩).nick = utf8 "foo" ∧ (w₂.memberAt ⟨0⟩).color = utf8 "#f44" := by
  intro w₂
  have hleaves : (run Sample.surroundings Sample.visit).lastLeaver Sample.surroundings Sample.goodbye ⟨0⟩ 7 =
      some ⟨0⟩ ∧ ((run Sample.surroundings Sample.visit).roomAt ⟨0⟩).name = utf8 "#room" ∧
      ((run Sample.surroundings Sample.visit).memberAt ⟨0⟩).nick = utf8 "foo" ∧
      ((run Sample.surroundings Sample.visit).memberAt ⟨0⟩).color = utf8 "#f44" := by decide +kernel
  obtain ⟨hlast, hname, hnick, hcolor⟩ := hleaves
  have hquiet : Undisturbed Sample.surroundings (Sample.visit ++ [Sample.goodbye]) (utf8 "#room") 7
      (⟨8, .save⟩ :: Sample.restarted) := Undisturbed.of_check (by decide +kernel)
  have hbetween : Interlude Sample.surroundings (Sample.visit ++ [Sample.goodbye]) (utf8 "#room") 7
      (⟨8, .save⟩ :: Sample.restarted) := by
    refine ⟨hquiet, ?_⟩
    intro l e l' hl hact
    cases l with
    | nil =>
      obtain ⟨rfl, -⟩ := List.cons.inj hl
      cases hact
    | cons s l =>
      obtain ⟨rfl, -⟩ := List.cons.inj hl
      exact ⟨_, List.mem_cons_self, rfl⟩
  have hback : (⟨0⟩ : MemberPtr) ∈ (w₂.roomAt ⟨0⟩).members.elems ∧ (⟨0⟩ : MemberPtr) ∉ ((run Sample.surroundings
      (Sample.visit ++ [Sample.goodbye] ++ (⟨8, .save⟩ :: Sample.restarted))).roomAt ⟨0⟩).members.elems ∧
      ((run Sample.surroundings (Sample.visit ++ [Sample.goodbye] ++ (⟨8, .save⟩ :: Sample.restarted))).clientAt
        (w₂.memberAt ⟨0⟩).client).uid = 7 ∧ Member.MayResume w₂ ⟨0⟩ (utf8 "foo") := by decide +kernel
  obtain ⟨hin, hout, huid, hmay⟩ := hback
  rw [← hname] at hbetween
  have hregistered : (7 : UInt32) ≠ 0 := by decide
  have hjoin : Sample.comeback.act.packet Sample.surroundings = some (.join Sample.request) := by decide +kernel
  have hrestored := run_profile_survives Sample.surroundings Sample.visit Sample.goodbye
    (⟨8, .save⟩ :: Sample.restarted) Sample.comeback hregistered hlast hbetween hjoin rfl hname.symm
    (IterSet.mem_elems.mp hin) (fun h => hout (IterSet.mem_elems.mpr h)) huid
  rw [hnick, hcolor] at hrestored
  exact ⟨hrestored.2.2.trans (if_pos hmay), hrestored.2.1⟩

/-- After a restart that it was not saved for he is bob again, though the room was there all the time. -/
theorem run_profile_lost :
    let w := run Sample.surroundings Sample.visit
    let w₁ := run Sample.surroundings (Sample.visit ++ [Sample.goodbye] ++ Sample.restarted)
    let w₂ := run Sample.surroundings (Sample.visit ++ [Sample.goodbye] ++ Sample.restarted ++ [Sample.comeback])
    w.lastLeaver Sample.surroundings Sample.goodbye ⟨0⟩ 7 = some ⟨0⟩ ∧ (w.memberAt ⟨0⟩).nick = utf8 "foo" ∧
      Undisturbed Sample.surroundings (Sample.visit ++ [Sample.goodbye]) (w.roomAt ⟨0⟩).name 7 Sample.restarted ∧
      Sample.comeback.act.packet Sample.surroundings = some (.join Sample.request) ∧ Sample.request.autoLogin = true ∧
      Sample.request.target = (w.roomAt ⟨0⟩).name ∧
      ⟨0⟩ ∈ (w₂.roomAt ⟨0⟩).members ∧ ⟨0⟩ ∉ (w₁.roomAt ⟨0⟩).members ∧
      (w₁.clientAt (w₂.memberAt ⟨0⟩).client).uid = 7 ∧ Member.MayResume w₂ ⟨0⟩ (utf8 "foo") ∧
      (w₂.memberAt ⟨0⟩).nick = utf8 "bob" ∧ (w₂.memberAt ⟨0⟩).color ≠ (w.memberAt ⟨0⟩).color := by
  intro w w₁ w₂
  have hleaves : w.lastLeaver Sample.surroundings Sample.goodbye ⟨0⟩ 7 = some ⟨0⟩ ∧
      (w.memberAt ⟨0⟩).nick = utf8 "foo" ∧ Sample.request.target = (w.roomAt ⟨0⟩).name := by decide +kernel
  have hquiet : Undisturbed Sample.surroundings (Sample.visit ++ [Sample.goodbye]) (w.roomAt ⟨0⟩).name 7
      Sample.restarted := Undisturbed.of_check (by decide +kernel)
  have hback : Sample.comeback.act.packet Sample.surroundings = some (.join Sample.request) ∧
      ⟨0⟩ ∈ (w₂.roomAt ⟨0⟩).members.elems ∧ ⟨0⟩ ∉ (w₁.roomAt ⟨0⟩).members.elems ∧
      (w₁.clientAt (w₂.memberAt ⟨0⟩).client).uid = 7 ∧ Member.MayResume w₂ ⟨0⟩ (utf8 "foo") ∧
      (w₂.memberAt ⟨0⟩).nick = utf8 "bob" ∧ (w₂.memberAt ⟨0⟩).color ≠ (w.memberAt ⟨0⟩).color := by decide +kernel
  exact ⟨hleaves.1, hleaves.2.1, hquiet, hback.1, rfl, hleaves.2.2, hback.2⟩

end WsChat
