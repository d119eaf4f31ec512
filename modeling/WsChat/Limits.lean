import WsChat.Upkeep
import WsChat.Rights

/-! How long the ban lists and the list of moderators of a room can get while no admin comes to it. -/
namespace WsChat
open Lib Relation ClientsManager

/-- An admin is in the room of the name. -/
def World.AdminIn (w : World) (name : Bytes) : Prop :=
  ∃ r ∈ w.rooms, (w.roomAt r).name = name ∧ ∃ m ∈ (w.roomAt r).members, Member.isAdmin w m

instance (w : World) (name : Bytes) : Decidable (w.AdminIn name) :=
  inferInstanceAs (Decidable (∃ r ∈ w.rooms.elems, (w.roomAt r).name = name ∧
    ∃ m ∈ (w.roomAt r).members.elems, Member.isAdmin w m = true))

/-- No list is more than one over its limit. -/
structure Room.Bounded (rm : Room) : Prop where
  bannedNicks : rm.bannedNicks.size ≤ 101
  bannedIps : rm.bannedIps.size ≤ 101
  bannedUids : rm.bannedUids.size ≤ 101
  moderators : rm.moderators.size ≤ 11

structure World.Bounded (name : Bytes) (w : World) : Prop where
  rooms : ∀ r ∈ w.rooms, (w.roomAt r).name = name → (w.roomAt r).Bounded
  disk : w.Stored fun rm => rm.name = name → rm.Bounded

section
variable {env : Env} {w w' : World} {c t : ClientPtr} {k : ConnectionPtr} {r : RoomPtr} {rm : Room} {name : Bytes}

theorem Revised.size {α : Type} [DecidableEq α] {limit : Nat} {s s' : IterSet α} (h : Revised false limit s s')
    (hs : s.size ≤ limit + 1) : s'.size ≤ limit + 1 := by
  cases h with
  | same => exact hs
  | erase a => exact (IterSet.size_erase s a).trans hs
  | insert a hright =>
    cases hright with
    | inl hadmin => cases hadmin
    | inr hle =>
      have hadd := IterSet.size_insert (p := .back) s a
      omega

theorem Room.Fresh.bounded (h : rm.Fresh) : rm.Bounded := by
  obtain ⟨name, uid, -, -, rfl⟩ := h
  exact ⟨Nat.zero_le _, Nat.zero_le _, Nat.zero_le _, Nat.zero_le _⟩

theorem Room.Bounded.rules {rm' : Room} (h : rm.Bounded) (hrules : rm'.SameRules rm) : rm'.Bounded := by
  obtain ⟨-, hmods, hbans⟩ := hrules
  obtain ⟨hnicks, hbans⟩ := Prod.mk.inj hbans
  obtain ⟨hips, huids⟩ := Prod.mk.inj hbans
  exact ⟨hnicks ▸ h.bannedNicks, hips ▸ h.bannedIps, huids ▸ h.bannedUids, hmods ▸ h.moderators⟩

theorem World.Keeping.bounded (h : w.Keeping r rm) (hno : ∀ m ∈ (w.roomAt r).members, ¬ Member.isAdmin w m)
    (hr : (w.roomAt r).Bounded) : rm.Bounded := by
  obtain ⟨admin, hlists⟩ := h.lists
  cases admin with
  | true =>
    obtain ⟨m, hm, hadmin⟩ := hlists.present rfl
    exact absurd hadmin (hno m hm)
  | false => exact ⟨hlists.bannedNicks.size hr.bannedNicks, hlists.bannedIps.size hr.bannedIps,
      hlists.bannedUids.size hr.bannedUids, hlists.moderators.size hr.moderators⟩

theorem World.Bounded.upkeep (h : w.Bounded name) (hu : Upkeep w w')
    (hkeep : ∀ r ∈ w.rooms, w.Keeping r (w'.roomAt r) → (w.roomAt r).name = name → (w'.roomAt r).Bounded) :
    w'.Bounded name := by
  refine ⟨fun r hr hname => ?_, ?_⟩
  · cases hu.rooms r hr with
    | inl hold => exact hkeep r hold.1 hold.2 (hold.2.name ▸ hname)
    | inr hnew => exact hnew.bounded
  · unfold World.Stored
    rw [hu.disk]
    exact h.disk

theorem World.Bounded.ruled (h : w.Bounded name) (hno : ¬ w.AdminIn name) (hu : Upkeep w w') : w'.Bounded name := by
  refine h.upkeep hu fun r hr hkeep hname => hkeep.bounded ?_ (h.rooms r hr hname)
  intro m hm hadmin
  exact hno ⟨r, hr, hname, m, hm, hadmin⟩

theorem World.Bounded.same (h : w.Bounded name) (hu : Upkeep w w')
    (hrules : ∀ r, (w'.roomAt r).SameRules (w.roomAt r)) : w'.Bounded name :=
  h.upkeep hu fun r hr _ hname => (h.rooms r hr hname).rules (hrules r)

theorem World.Bounded.thin (h : w.Bounded name) (hu : Upkeep w w') (ht : Thins w w') : w'.Bounded name :=
  h.same hu ht.rules

theorem Member.isAdmin_of_client {m : MemberPtr} (hmember : (w'.memberAt m).client = (w.memberAt m).client)
    (huid : ∀ d, (w'.clientAt d).uid = (w.clientAt d).uid) (h : Member.isAdmin w' m) : Member.isAdmin w m := by
  unfold Member.isAdmin Client.isAdmin at h ⊢
  rw [← huid, ← hmember]
  exact h

theorem World.AdminIn.of_feat (hl : w.membership.Linked) (hf : Feat env c w w') (h : w'.AdminIn name) :
    w.AdminIn name := by
  obtain ⟨r, hr, hname, m, hm, hadmin⟩ := h
  have hold : r ∈ w.rooms ∧ (w.roomAt r).name = name := by
    cases (hf.upkeep hl).rooms r hr with
    | inl hold => exact ⟨hold.1, hold.2.name ▸ hname⟩
    | inr hnew =>
      obtain ⟨_, _, -, -, he⟩ := hnew
      rw [he] at hm
      exact absurd hm (IterSet.not_mem_empty m)
  cases hf.stays hl with
  | inl hs =>
    refine ⟨r, hold.1, hold.2, m, (Frame.members_iff hs.frame).mp hm, ?_⟩
    refine Member.isAdmin_of_client (Frame.who hs.frame m) (fun d => ?_) hadmin
    obtain ⟨_, _, _, hd⟩ := hs.client d
    rw [hd]
  | inr hs =>
    obtain ⟨hin, hsame⟩ := hs.members r m hm
    refine ⟨r, hold.1, hold.2, m, hin, ?_⟩
    refine Member.isAdmin_of_client (by rw [hsame]) (fun d => ?_) hadmin
    obtain ⟨_, hd⟩ := hs.clients d
    rw [hd]

theorem World.Bounded.feats (h : w.Bounded name) (hw : WF env w) (hno : ¬ w.AdminIn name) (hf : Feats env c w w') :
    w'.Bounded name := by
  refine (Feats.keep (P := fun w' => ¬ w'.AdminIn name ∧ w'.Bounded name) ?_ hf hw ⟨hno, h⟩).2
  intro w₁ w₂ hw₁ hp hfeat
  exact ⟨fun hin => hp.1 (hin.of_feat hw₁.linked hfeat), hp.2.ruled hp.1 (hfeat.upkeep hw₁.linked)⟩

theorem World.AdminIn.stills (hs : Stills env c w w') (h : w.AdminIn name) : w'.AdminIn name := by
  induction hs with
  | refl => exact h
  | tail _ hstep ih =>
    rename_i w₁ w₂ _
    obtain ⟨r, hr, hname, m, hm, hadmin⟩ := ih
    have hf : Frame w₁ w₂ := hstep.frame
    have hrooms : w₂.rooms = w₁.rooms := by
      cases hstep with
      | answer | list | touch | whisper | presence | typing | dress | rename | ban | appoint => rfl
      | say r =>
        rw [Room.say_eq]
        rfl
      | restyle =>
        rw [Member.announce_eq]
        rfl
    refine ⟨r, hrooms ▸ hr, ?_, m, hf.members_iff.mpr hm, ?_⟩
    · rw [← hname]
      exact congrFun (congrArg Membership.name hf.membership) r
    · have huid : ∀ d, (w₁.clientAt d).uid = (w₂.clientAt d).uid := by
        intro d
        obtain ⟨_, _, _, hd⟩ := hstep.client d
        rw [hd]
      exact Member.isAdmin_of_client (hf.who m).symm huid hadmin

theorem World.Bounded.course (h : w.Bounded name) (hw : WF env w) (hno : ¬ w.AdminIn name) (hno' : ¬ w'.AdminIn name)
    {sv : AuthServices} {p : Packet} (hc : Course env sv c p w w') : w'.Bounded name := by
  cases hc with
  | feats hf => exact h.feats hw hno hf
  | login a user q =>
    cases user with
    | none => exact ⟨h.rooms, h.disk⟩
    | some user => exact ⟨h.rooms, h.disk⟩
  | enter r id sequenceId loadHistory hc hr hcr hid ha hs =>
    have hev := (enter_evolves w c r id).then_frame (Frame.emit (w.enter c r id)
      ((w.enter c r id).welcomeMail c r ⟨w.nextMember⟩ sequenceId loadHistory))
    have hentered : World.Bounded name ((w.enter c r id).emit
        ((w.enter c r id).welcomeMail c r ⟨w.nextMember⟩ sequenceId loadHistory)) :=
      h.ruled hno ((Upkeep.enter w c r id).emit _)
    exact hentered.feats (hw.relink hev (hw.linked.enter w.not_issued hc hr hcr)) (fun hin => hno' (hin.stills hs))
      (Stills.feats hs)
  | revive a t k q _ _ _ _ _ hct hk =>
    have hanswered : World.Bounded name (w.emit [(k, .packet q)]) := ⟨h.rooms, h.disk⟩
    exact hanswered.thin (.reviveClient (hw.frame (Frame.emit w _)).linked hct hk) (.reviveClient _ c t)

theorem World.Bounded.connect (h : w.Bounded name) (k : ConnectionPtr) (draws : List Token) :
    (connect env w k draws).Bounded name := by
  refine h.same (.connect w k draws) fun r => ?_
  rw [(connect_heap env w k draws).2]
  exact .rfl

theorem World.Bounded.routine (h : w.Bounded name) (hw : WF env w) (hr : Routine env w w') : w'.Bounded name := by
  cases hr with
  | clock | mark => exact ⟨h.rooms, h.disk⟩
  | opening k draws =>
    have harrival : (w.arrival env k).Bounded name := ⟨h.rooms, h.disk⟩
    rcases Server.onOpen_cases env hw k draws with ⟨-, he⟩ | ⟨-, ⟨-, he⟩ | ⟨c, -, -, -, -, he⟩⟩
    · rw [he]
      exact ⟨h.rooms, h.disk⟩
    · rw [he]
      exact harrival.connect k draws
    · rw [he]
      have hl : (w.arrival env k).membership.Linked := hw.linked
      exact (harrival.thin (.remove hl c) (.remove _ c)).connect k draws
  | ping c =>
    rw [Client.sendPacket_eq]
    exact ⟨h.rooms, h.disk⟩
  | orphan c hc => exact h.thin (.makeOrphan hw hc) (.makeOrphan w c)
  | drop c => exact h.thin (.remove hw.linked c) (.remove w c)

theorem World.Bounded.chore (h : w.Bounded name) (hw : WF env w) (hc : Chore env w w') : w'.Bounded name := by
  cases hc with
  | routine hr => exact h.routine hw hr
  | save => exact ⟨h.rooms, .inr ⟨w, rfl, h.rooms⟩⟩
  | restart =>
    have hreload : ∀ rm : Room, (rm.name = name → rm.Bounded) → rm.reloaded.name = name → rm.reloaded.Bounded :=
      fun rm hrm hname => (hrm hname).rules ⟨rfl, rfl, rfl⟩
    refine ⟨h.disk.restart hreload, ?_⟩
    unfold World.Stored
    rw [World.restart_disk hw.saved]
    exact h.disk

theorem World.Bounded.step (h : w.Bounded name) (hw : WF env w) (hno : ¬ w.AdminIn name) (e : Event)
    (hno' : ¬ (w.step env e).AdminIn name) : (w.step env e).Bounded name := by
  have hclock : World.Bounded name { w with now := e.now } := ⟨h.rooms, h.disk⟩
  have hw' : WF env { w with now := e.now } := hw.chore (.clock e.now)
  rcases World.step_course hw e with hr | ⟨k, msg, sv, c, p, -, -, -, hcourse⟩ | ⟨-, hs⟩
  · exact steps_preserve_under (fun _ _ hw hr => hw.routine hr) (fun _ _ hw hp hr => hp.routine hw hr) hr hw' hclock
  · have htouch : Stills env c { w with now := e.now }
        (World.modifyClient { w with now := e.now } c fun cli => { cli with lastPacketTime := e.now }) :=
      touch_stills _ _ _ rfl
    have hnoted := hclock.feats hw' hno htouch.feats
    refine hnoted.course (hw'.frame htouch.frame) ?_ hno' hcourse
    intro hin
    have hback : Feats env c { w with now := e.now }
        (World.modifyClient { w with now := e.now } c fun cli => { cli with lastPacketTime := e.now }) := htouch.feats
    exact hno ((Feats.keep (P := fun w' => w'.AdminIn name → w.AdminIn name)
      (fun _ _ hw hp hfeat hin => hp (hin.of_feat hw.linked hfeat)) hback hw' id) hin)
  · exact hclock.chore hw' hs

/-- As long as no admin is in a room of the name, no ban list of it has more than 101 entries and it has no more than
11 moderators, in memory and in the saved file: the limits of 100 and 10 can be overstepped once. -/
theorem run_lists_bounded (env : Env) (es : List Event) (name : Bytes)
    (hadmin : ∀ es₁, es₁ <+: es → ¬ (run env es₁).AdminIn name) : (run env es).Bounded name := by
  induction es using List.reverseRecOn with
  | nil => exact ⟨fun r hr => absurd hr (IterSet.not_mem_empty r), .inl rfl⟩
  | append_singleton es e ih =>
    have hbefore : (run env es).Bounded name := ih fun es₁ h₁ => hadmin es₁ (h₁.trans (List.prefix_append es [e]))
    have hno := hadmin es (List.prefix_append es [e])
    have hno' := hadmin (es ++ [e]) (List.prefix_refl _)
    rw [run_append, List.foldl_cons, List.foldl_nil] at hno' ⊢
    exact hbefore.step (wf_run env es) hno e hno'

end

theorem run_lists_bounded_ban :
    (run Sample.surroundings
      (Sample.room ++ [Sample.sends 7 1 (Sample.line (utf8 "/bannick foo"))])).Bounded (utf8 "#room") := by
  have hcheck : ((Sample.room ++ [Sample.sends 7 1 (Sample.line (utf8 "/bannick foo"))]).inits.all fun es =>
      decide (¬ (run Sample.surroundings es).AdminIn (utf8 "#room"))) = true := by decide +kernel
  refine run_lists_bounded Sample.surroundings _ (utf8 "#room") ?_
  intro es₁ h₁
  exact of_decide_eq_true (List.all_eq_true.mp hcheck es₁ ((List.mem_inits _ _).mpr h₁))

end WsChat
