import WsChat.Upkeep

/-! Who is shown as an orphan: in every reachable state exactly the members whose clients have no connection. -/
namespace WsChat
open Lib Relation ClientsManager

def World.Offline (w : World) (m : MemberPtr) : Prop := (w.clientAt (w.memberAt m).client).connection = none

/-- The status of a member is right about the connection of its client. -/
def World.Present (w : World) : Prop :=
  ∀ r, ∀ m ∈ (w.roomAt r).members, (w.memberAt m).status = .orphan ↔ w.Offline m

section
variable {env : Env} {w w' : World} {c t : ClientPtr} {k : ConnectionPtr} {r : RoomPtr} {m : MemberPtr}

theorem World.Offline.congr (hclient : (w'.memberAt m).client = (w.memberAt m).client)
    (hconn : (w'.clientAt (w.memberAt m).client).connection = (w.clientAt (w.memberAt m).client).connection) :
    w'.Offline m ↔ w.Offline m := by
  unfold World.Offline
  rw [hclient, hconn]

theorem World.Present.shrink (h : w.Present) (hmembers : ∀ r, ∀ m ∈ (w'.roomAt r).members, m ∈ (w.roomAt r).members)
    (hstay : ∀ r, ∀ m ∈ (w'.roomAt r).members, (w'.memberAt m).status = (w.memberAt m).status ∧
      (w'.memberAt m).client = (w.memberAt m).client ∧
      (w'.clientAt (w.memberAt m).client).connection = (w.clientAt (w.memberAt m).client).connection) :
    w'.Present := by
  intro r m hm
  obtain ⟨hstatus, hclient, hconn⟩ := hstay r m hm
  rw [hstatus, World.Offline.congr hclient hconn]
  exact h r m (hmembers r m hm)

theorem World.Present.turn (h : w.Present) (c : ClientPtr)
    (hmembers : ∀ r, ∀ m ∈ (w'.roomAt r).members, m ∈ (w.roomAt r).members)
    (hclient : ∀ m, (w'.memberAt m).client = (w.memberAt m).client)
    (hself : ∀ r, ∀ m ∈ (w'.roomAt r).members, (w.memberAt m).client = c →
      ((w'.memberAt m).status = .orphan ↔ (w'.clientAt c).connection = none))
    (hother : ∀ r, ∀ m ∈ (w'.roomAt r).members, (w.memberAt m).client ≠ c →
      (w'.memberAt m).status = (w.memberAt m).status ∧
      (w'.clientAt (w.memberAt m).client).connection = (w.clientAt (w.memberAt m).client).connection) :
    w'.Present := by
  intro r m hm
  by_cases hc : (w.memberAt m).client = c
  · unfold World.Offline
    rw [hclient, hc]
    exact hself r m hm hc
  · obtain ⟨hstatus, hconn⟩ := hother r m hm hc
    rw [hstatus, World.Offline.congr (hclient m) hconn]
    exact h r m (hmembers r m hm)

theorem Still.status (hs : Still env c w w') (n : MemberPtr) : (w'.memberAt n).status = (w.memberAt n).status ∨
    (w.memberAt n).client = c ∧ (w'.memberAt n).status ≠ .orphan := by
  have hset : ∀ (m : MemberPtr) (f : Member → Member), (∀ mem, (f mem).status = mem.status) →
      ((w.modifyMember m f).memberAt n).status = (w.memberAt n).status := by
    intro m f hf
    by_cases hn : n = m
    · subst hn
      simp [hf]
    · simp [hn]
  cases hs with
  | answer | list | touch | whisper | typing | ban | appoint => exact .inl rfl
  | say r =>
    rw [Room.say_eq]
    exact .inl rfl
  | presence r m stat hm =>
    by_cases hn : n = m
    · subst hn
      refine .inr ⟨hm.client, ?_⟩
      by_cases hs : stat = .back
      · simp [Member.setStatus, hs]
      · simp [Member.setStatus, hs]
    · left
      simp [Member.setStatus, hn]
  | restyle r m girl color stat =>
    rw [Member.announce_eq]
    exact .inl (hset m (fun mem => { mem with girl := girl, color := color }) fun _ => rfl)
  | dress r m girl color => exact .inl (hset m (fun mem => { mem with girl := girl, color := color }) fun _ => rfl)
  | rename r m nick => exact .inl (hset m (fun mem => { mem with nick := nick }) fun _ => rfl)

theorem World.Present.still (h : w.Present) (hk : (w.clientAt c).connection = some k) (hs : Still env c w w') :
    w'.Present := by
  have hf := hs.frame
  have hconn : ∀ d, (w'.clientAt d).connection = (w.clientAt d).connection :=
    congrFun (congrArg Registry.connection hf.registry)
  intro r m hm
  rw [hf.members_iff] at hm
  rw [World.Offline.congr (hf.who m) (hconn _)]
  cases hs.status m with
  | inl hsame =>
    rw [hsame]
    exact h r m hm
  | inr hset =>
    refine iff_of_false hset.2 ?_
    unfold World.Offline
    rw [hset.1, hk]
    exact Option.some_ne_none k

theorem World.Present.stays (h : w.Present) (hs : Stays w w') : w'.Present := by
  refine h.shrink (fun r m hm => (hs.members r m hm).1) fun r m hm => ?_
  rw [(hs.members r m hm).2]
  obtain ⟨rooms, hd⟩ := hs.clients (w.memberAt m).client
  exact ⟨rfl, rfl, by rw [hd]⟩

theorem World.Present.feat (h : w.Present) (hw : WF env w) (hk : (w.clientAt c).connection = some k)
    (hf : Feat env c w w') : w'.Present := by
  cases hf.stays hw.linked with
  | inl hs => exact h.still hk hs
  | inr hs => exact h.stays hs

theorem World.Present.feats (h : w.Present) (hw : WF env w) (hk : (w.clientAt c).connection = some k)
    (hf : Feats env c w w') : w'.Present := by
  refine (Feats.keep (P := fun w' => w'.registry = w.registry ∧ w'.Present) ?_ hf hw ⟨rfl, h⟩).2
  intro w₁ w₂ hw₁ hp hfeat
  have hk₁ : (w₁.clientAt c).connection = some k := by
    change w₁.registry.connection c = some k
    rw [hp.1]
    exact hk
  exact ⟨(hfeat.registry hw₁).trans hp.1, hp.2.feat hw₁ hk₁ hfeat⟩

theorem World.Present.settle {u : World} {l : List RoomPtr} {stat : Status} (h : w.Present)
    (hl : w'.membership.Linked) (hrooms : (w'.clientAt c).rooms.elems = l)
    (hmembers : ∀ r, ∀ m ∈ (w'.roomAt r).members, m ∈ (w.roomAt r).members) (hu : u.memberAt = w.memberAt)
    (hmember : w'.memberAt = (u.settle c l stat).memberAt) (hroom : w'.roomAt = u.roomAt)
    (hself : stat = .orphan ↔ (w'.clientAt c).connection = none)
    (hother : ∀ r, ∀ m ∈ (w'.roomAt r).members, (w.memberAt m).client ≠ c →
      (w'.clientAt (w.memberAt m).client).connection = (w.clientAt (w.memberAt m).client).connection) : w'.Present := by
  have hclient : ∀ m, (w'.memberAt m).client = (w.memberAt m).client := by
    intro m
    rw [hmember, World.settle_client, hu]
  have hfind : ∀ r, Room.findMemberByClient u r c = Room.findMemberByClient w' r c := by
    intro r
    unfold Room.findMemberByClient
    rw [hroom, hu]
    simp only [hclient]
  have hstatus : ∀ m, (∃ r ∈ l, Room.findMemberByClient u r c = some m) → (w'.memberAt m).status = stat := by
    intro m hm
    rw [hmember]
    unfold World.settle
    dsimp only
    rw [if_pos hm]
    rfl
  refine h.turn c hmembers hclient (fun r m hm hc => ?_) fun r m hm hc => ⟨?_, hother r m hm hc⟩
  · have hr : r ∈ (w'.clientAt c).rooms := (hl.joinedIff c r).mpr ⟨m, hm, (hclient m).trans hc⟩
    have hfound : Room.findMemberByClient w' r c = some m :=
      Room.findMemberByClient_eq hl hm ((hclient m).trans hc)
    rw [hstatus m ⟨r, hrooms ▸ IterSet.mem_elems.mpr hr, (hfind r).trans hfound⟩]
    exact hself
  · have hnot : ¬ ∃ r ∈ l, Room.findMemberByClient u r c = some m := by
      rintro ⟨s, -, hs⟩
      rw [hfind] at hs
      exact hc ((hclient m).symm.trans (Room.mem_of_findMemberByClient hs).2)
    rw [hmember]
    unfold World.settle
    dsimp only
    rw [if_neg hnot, hu]

theorem World.Present.enter (h : w.Present) (hl : w.membership.Linked) (hk : (w.clientAt c).connection = some k)
    (r : RoomPtr) (id : UInt32) : (w.enter c r id).Present := by
  have hconn : ∀ d, ((w.enter c r id).clientAt d).connection = (w.clientAt d).connection :=
    congrFun (congrArg Registry.connection (enter_evolves w c r id).registry)
  intro s m hm
  cases World.mem_enter.mp hm with
  | inl hold =>
    have hmember : (w.enter c r id).memberAt m = w.memberAt m := World.memberAt_enter_old hl hold
    rw [World.Offline.congr (w := w) (by rw [hmember]) (hconn _), hmember]
    exact h s m hold
  | inr hnew =>
    unfold World.Offline
    rw [hnew.2, World.memberAt_enter_new, hconn, hk]
    exact iff_of_false (fun he => by cases he) (Option.some_ne_none k)

theorem World.Present.revive (h : w.Present) (hw : WF env w) (hc : c ∈ w.manager.clients)
    (ht : t ∈ w.manager.clients) (hct : c ≠ t) (hk : (w.clientAt c).connection = some k) :
    (Server.reviveClient env w c t).1.Present := by
  have hl := hw.linked
  have hev := (reviveClient_evolves hw.indexed hl hc ht hct hk).then_frame (Server.reviveClient_frame w c t)
  have hl' : (Server.reviveClient env w c t).1.membership.Linked := hev.membership ▸ hl.withdraw
  have hgone : ∀ s, Departed s [c] w (Server.reviveClient env w c t).1 := fun s => .reviveClient env hl hct hk
  obtain ⟨manager, clamped, closing, he⟩ := Server.reviveClient_normal env hl hct hk
  rw [he] at hl' hgone ⊢
  dsimp only at hl' hgone ⊢
  refine h.settle (c := t) (u := (w.withdraw c).plug env t k) (l := (w.clientAt t).rooms.elems) hl' ?_
    (fun s m hm => ((hgone s).seats m |>.mp hm).1) rfl rfl rfl ?_ ?_
  · simp [World.plug, World.withdraw, World.settle, Ne.symm hct]
  · simp [World.plug, World.settle]
  · intro s m hm hmt
    have hmc : (w.memberAt m).client ≠ c := by
      intro hmc
      exact ((hgone s).seats m |>.mp hm).2 (hmc ▸ List.mem_singleton_self c)
    simp [World.plug, World.withdraw, World.settle, hmt, hmc]

theorem World.Present.orphan (h : w.Present) (hw : WF env w) (hc : c ∈ w.manager.clients) :
    (makeOrphan env w c).Present := by
  cases hk : (w.clientAt c).connection with
  | none =>
    have hsame : makeOrphan env w c = w := by
      unfold makeOrphan
      rw [hk]
    rw [hsame]
    exact h
  | some k =>
    have hl' : (makeOrphan env w c).membership.Linked := (hw.orphan hc).linked
    obtain ⟨manager, clamped, he⟩ := makeOrphan_normal hw.indexed hw.linked hc hk
    rw [he] at hl' ⊢
    dsimp only at hl' ⊢
    refine h.settle (c := c) (u := w.unplug c) (l := (w.clientAt c).rooms.elems) hl' ?_ (fun _ _ hm => hm) rfl rfl rfl
      ?_ ?_
    · simp [World.unplug, World.settle]
    · simp [World.unplug, World.settle]
    · intro s m _ hmc
      simp [World.unplug, World.settle, hmc]

theorem World.Present.drop (h : w.Present) (hl : w.membership.Linked) (c : ClientPtr) : (remove env w c).Present := by
  have hgone : ∀ s, Departed s [c] w (remove env w c) := fun s => .remove hl c
  have hnormal : ∃ manager clamped, remove env w c =
      { w.withdraw c with manager := manager, clamped := clamped } := remove_normal hl
  obtain ⟨manager, clamped, he⟩ := hnormal
  rw [he] at hgone ⊢
  refine h.shrink (fun s m hm => ((hgone s).seats m |>.mp hm).1) fun s m hm => ⟨rfl, rfl, ?_⟩
  have hmc : (w.memberAt m).client ≠ c := by
    intro hmc
    exact ((hgone s).seats m |>.mp hm).2 (hmc ▸ List.mem_singleton_self c)
  simp [World.withdraw, hmc]

theorem World.Present.connect (h : w.Present) (hi : w.registry.Indexed env) (hl : w.membership.Linked)
    (draws : List Token) : (connect env w k draws).Present := by
  obtain ⟨hmember, hroom⟩ := connect_heap env w k draws
  refine h.shrink (fun s m hm => ?_) fun s m hm => ?_
  · rw [hroom] at hm
    exact hm
  · rw [hroom] at hm
    have hold : (w.memberAt m).client ≠ ⟨w.nextClient⟩ := by
      intro he
      have hlt : (w.memberAt m).client.addr < w.nextClient := hi.fresh _ (hl.registered s m hm)
      rw [he] at hlt
      exact Nat.lt_irrefl _ hlt
    rw [hmember]
    refine ⟨rfl, rfl, ?_⟩
    unfold ClientsManager.connect
    split
    · rfl
    · simp [Client.setConnection, hold]

theorem World.Present.course {sv : AuthServices} {p : Packet} (h : w.Present) (hw : WF env w)
    (hk : (w.clientAt c).connection = some k) (hc : Course env sv c p w w') : w'.Present := by
  cases hc with
  | feats hf => exact h.feats hw hk hf
  | login a user q =>
    cases user with
    | none => exact h
    | some user =>
      refine h.shrink (fun _ _ hm => hm) fun r m _ => ⟨rfl, rfl, ?_⟩
      by_cases hd : (w.memberAt m).client = c
      · simp [PacketAuth.initUser, hd]
      · simp [PacketAuth.initUser, hd]
  | enter r id sequenceId loadHistory hc hr hcr hid ha hs =>
    have hev := (enter_evolves w c r id).then_frame (Frame.emit (w.enter c r id)
      ((w.enter c r id).welcomeMail c r ⟨w.nextMember⟩ sequenceId loadHistory))
    have hentered : World.Present ((w.enter c r id).emit
        ((w.enter c r id).welcomeMail c r ⟨w.nextMember⟩ sequenceId loadHistory)) := h.enter hw.linked hk r id
    refine hentered.feats (hw.relink hev (hw.linked.enter w.not_issued hc hr hcr)) ?_ (Stills.feats hs) (k := k)
    exact (congrFun (congrArg Registry.connection hev.registry) c).trans hk
  | revive a t k' q _ _ _ hc ht hct hk' =>
    have hanswered : (w.emit [(k', .packet q)]).Present := h
    exact hanswered.revive (hw.frame (Frame.emit w _)) hc ht hct hk'

theorem World.Present.routine (h : w.Present) (hw : WF env w) (hr : Routine env w w') : w'.Present := by
  cases hr with
  | clock | mark => exact h
  | opening k draws hk =>
    have harrival : (w.arrival env k).Present := h
    rcases Server.onOpen_cases env hw k draws with ⟨-, he⟩ | ⟨-, ⟨-, he⟩ | ⟨c, hc, -, hck, -, he⟩⟩
    · rw [he]
      exact h
    · rw [he]
      exact harrival.connect (World.arrival_indexed hw) hw.linked draws
    · rw [he]
      have hev := remove_orphan_evolves (World.arrival_indexed (k := k) hw) hw.linked hc hck
      have hdrop : (remove env (w.arrival env k) c).Present := harrival.drop hw.linked c
      refine hdrop.connect ?_ ?_ draws
      · rw [hev.registry]
        exact (World.arrival_indexed hw).forget hc hck
      · rw [hev.membership]
        exact hw.linked.withdraw
  | ping c =>
    rw [Client.sendPacket_eq]
    exact h
  | orphan c hc => exact h.orphan hw hc
  | drop c hc => exact h.drop hw.linked c

/-- In every run, a member of a room has the status of an orphan if and only if its client has no connection, and
otherwise it is online or away. -/
theorem run_present (env : Env) (es : List Event) :
    let w := run env es
    ∀ r, ∀ m ∈ (w.roomAt r).members, (w.memberAt m).status.Present ∧
      ((w.memberAt m).status = .orphan ↔ (w.clientAt (w.memberAt m).client).connection = none) := by
  have hpresent : (run env es).Present := by
    refine run_course_invariant (P := World.Present) ?_ ?_ ?_
    · intro r m hm
      exact absurd hm (IterSet.not_mem_empty m)
    · intro e _ k msg sv c p w w' _ hw _ _ hk h hcourse
      exact h.course hw hk hcourse
    · intro w w' hw h hchore
      cases hchore with
      | routine hr => exact h.routine hw hr
      | save => exact h
      | restart =>
        intro r m hm
        rw [World.restart_members hw r] at hm
        exact absurd hm (IterSet.not_mem_empty m)
  intro w r m hm
  exact ⟨(seated_run env es).present r m hm, hpresent r m hm⟩

end
end WsChat
