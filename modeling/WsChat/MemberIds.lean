import WsChat.Admission

/-! The ids of members: the search around the circle of 32-bit numbers, from any start. -/
namespace WsChat
open Lib

/-- A number that the search passes over. -/
def Room.TakenId (w : World) (r : RoomPtr) (id : UInt32) : Prop :=
  id = 0 ∨ ∃ m ∈ (w.roomAt r).members, (w.memberAt m).id = id

/-- The first free number behind the start is so many steps away. -/
structure Room.FirstFree (w : World) (r : RoomPtr) (start : UInt32) (turns : Nat) (id : UInt32) : Prop where
  pos : 0 < turns
  steps : id = start + UInt32.ofNat turns
  free : ¬ Room.TakenId w r id
  passed : ∀ i, 0 < i → i < turns → Room.TakenId w r (start + UInt32.ofNat i)

def World.countFrom (w : World) (r : RoomPtr) (start : UInt32) : World :=
  w.modifyRoom r fun rm => { rm with nextMemberId := start }

variable {env : Env} {w : World} {r : RoomPtr} {start id : UInt32}

@[simp] theorem World.countFrom_members (w : World) (r : RoomPtr) (start : UInt32) :
    ((w.countFrom r start).roomAt r).members = (w.roomAt r).members := by
  simp [World.countFrom, World.modifyRoom]

@[simp] theorem World.countFrom_nextMemberId (w : World) (r : RoomPtr) (start : UInt32) :
    ((w.countFrom r start).roomAt r).nextMemberId = start := by
  simp [World.countFrom, World.modifyRoom]

@[simp] theorem World.countFrom_memberAt (w : World) (r : RoomPtr) (start : UInt32) :
    (w.countFrom r start).memberAt = w.memberAt := rfl

theorem Room.takenId_iff :
    Room.TakenId w r id ↔ (id == 0 || (Room.findMemberById w r id).isSome) = true := by
  rw [Room.TakenId, Bool.or_eq_true, beq_iff_eq]
  refine or_congr_right ?_
  constructor
  · intro h
    obtain ⟨m, hm, hid⟩ := h
    exact List.find?_isSome.mpr ⟨m, hm, by simpa using hid⟩
  · intro h
    obtain ⟨m, hm⟩ := Option.isSome_iff_exists.mp h
    exact ⟨m, List.mem_of_find?_eq_some hm, by simpa using List.find?_some hm⟩

theorem UInt32.add_ofNat_succ (start : UInt32) (i : Nat) :
    start + UInt32.ofNat (i + 1) = start + 1 + UInt32.ofNat i := by
  rw [Nat.add_comm i 1, UInt32.ofNat_add, ← UInt32.add_assoc]
  rfl

theorem Room.FirstFree.step {turns : Nat} (h : Room.FirstFree w r (start + 1) turns id)
    (htaken : Room.TakenId w r (start + 1)) : Room.FirstFree w r start (turns + 1) id where
  pos := Nat.succ_pos turns
  steps := by rw [UInt32.add_ofNat_succ, ← h.steps]
  free := h.free
  passed := by
    intro i hpos hi
    obtain ⟨i, rfl⟩ := Nat.exists_eq_succ_of_ne_zero (Nat.pos_iff_ne_zero.mp hpos)
    rw [Nat.succ_eq_add_one, UInt32.add_ofNat_succ]
    cases i with
    | zero => simpa using htaken
    | succ i => exact h.passed (i + 1) (Nat.succ_pos i) (Nat.lt_of_succ_lt_succ hi)

/-- The search returns the first free number, with as many turns as it is away or more. -/
theorem Room.genNextMemberIdLoop_first {fuel : Nat}
    (h : Room.genNextMemberIdLoop w r fuel start = some id) :
    ∃ turns, turns ≤ fuel ∧ Room.FirstFree w r start turns id := by
  induction fuel generalizing start with
  | zero => cases h
  | succ fuel ih =>
    unfold Room.genNextMemberIdLoop at h
    split at h
    · rename_i htaken
      obtain ⟨turns, hle, hfirst⟩ := ih h
      exact ⟨turns + 1, Nat.succ_le_succ hle, hfirst.step (Room.takenId_iff.mpr htaken)⟩
    · rename_i hfree
      have hid : start + 1 = id := Option.some.inj h
      subst hid
      refine ⟨1, Nat.succ_le_succ (Nat.zero_le fuel), Nat.one_pos, rfl, ?_, ?_⟩
      · exact fun htaken => hfree (Room.takenId_iff.mp htaken)
      · intro i hpos hi
        omega

theorem Room.FirstFree.loop {turns fuel : Nat} (h : Room.FirstFree w r start turns id) (hle : turns ≤ fuel) :
    Room.genNextMemberIdLoop w r fuel start = some id := by
  induction turns generalizing fuel start with
  | zero => exact absurd h.pos (Nat.lt_irrefl 0)
  | succ turns ih =>
    cases fuel with
    | zero => omega
    | succ fuel =>
      unfold Room.genNextMemberIdLoop
      have hid := h.steps
      rw [UInt32.add_ofNat_succ] at hid
      cases turns with
      | zero =>
        have hone : start + 1 = id := by simpa using hid.symm
        rw [if_neg, hone]
        rw [hone]
        exact fun htaken => h.free (Room.takenId_iff.mpr htaken)
      | succ turns =>
        have htaken : Room.TakenId w r (start + 1) := h.passed 1 Nat.one_pos (by omega)
        rw [if_pos (Room.takenId_iff.mp htaken)]
        refine ih ⟨Nat.succ_pos turns, hid, h.free, ?_⟩ (Nat.le_of_succ_le_succ hle)
        intro i hpos hi
        rw [← UInt32.add_ofNat_succ]
        exact h.passed (i + 1) (Nat.succ_pos i) (Nat.succ_lt_succ hi)

theorem Room.takenId_countFrom : Room.TakenId (w.countFrom r start) r id ↔ Room.TakenId w r id := by
  simp [Room.TakenId]

theorem Room.FirstFree.of_countFrom {turns : Nat}
    (h : Room.FirstFree (w.countFrom r start) r start turns id) : Room.FirstFree w r start turns id where
  pos := h.pos
  steps := h.steps
  free := fun htaken => h.free (Room.takenId_countFrom.mpr htaken)
  passed := fun i hpos hi => Room.takenId_countFrom.mp (h.passed i hpos hi)

/-- In every run, from every value of its counter, a room with fewer members than there are ids
finds the first free one behind it after at most one round; and the ids of its members are neither
zero nor shared. -/
theorem run_member_ids (env : Env) (es : List Event) :
    let w := run env es
    (∀ r start, (w.roomAt r).members.elems.length < 2 ^ 32 - 1 →
      ∃ turns id, turns ≤ 2 ^ 32 ∧ Room.FirstFree w r start turns id ∧
        (∀ fuel, turns ≤ fuel → Room.genNextMemberIdLoop (w.countFrom r start) r fuel start = some id) ∧
        Room.genNextMemberId (w.countFrom r start) r = some id ∧ id ≠ 0 ∧
        ∀ m ∈ (w.roomAt r).members, (w.memberAt m).id ≠ id) ∧
    ∀ r, ∀ m ∈ (w.roomAt r).members, (w.memberAt m).id ≠ 0 ∧
      ∀ n ∈ (w.roomAt r).members, (w.memberAt m).id = (w.memberAt n).id → m = n := by
  intro w
  have hseated : Seated w := seated_run env es
  refine ⟨?_, fun r m hm => ⟨hseated.numbered r m hm, hseated.ids r m hm⟩⟩
  intro r start hroom
  obtain ⟨id, hid⟩ := Room.genNextMemberId_isSome (w := w.countFrom r start) (r := r) (by simpa using hroom)
  have hloop := hid
  rw [Room.genNextMemberId, World.countFrom_nextMemberId] at hloop
  obtain ⟨turns, hle, hfirst⟩ := Room.genNextMemberIdLoop_first hloop
  refine ⟨turns, id, hle, hfirst.of_countFrom, fun fuel => hfirst.loop, hid, ?_, ?_⟩
  · intro hzero
    exact hfirst.free (.inl hzero)
  · intro m hm he
    exact hfirst.free (.inr ⟨m, by simpa using hm, he⟩)

theorem run_member_ids_room :
    let w := run Sample.surroundings Sample.room
    ∃ id, Room.genNextMemberId (w.countFrom ⟨0⟩ 0xffffffff) ⟨0⟩ = some id ∧
      id ≠ 0 ∧ id ≠ 1 ∧ id ≠ 2 := by
  have hids : ((run Sample.surroundings Sample.room).roomAt ⟨0⟩).members.elems.map
      (fun m => ((run Sample.surroundings Sample.room).memberAt m).id) = [1, 2] := by
    decide +kernel
  have hroom : ((run Sample.surroundings Sample.room).roomAt ⟨0⟩).members.elems.length < 2 ^ 32 - 1 := by
    rw [← List.length_map (f := fun m => ((run Sample.surroundings Sample.room).memberAt m).id), hids]
    decide
  obtain ⟨turns, id, -, -, -, hid, hne, hfree⟩ :=
    (run_member_ids Sample.surroundings Sample.room).1 ⟨0⟩ 0xffffffff hroom
  have hout : ∀ i ∈ [1, 2], id ≠ i := by
    intro i hi
    rw [← hids, List.mem_map] at hi
    obtain ⟨m, hm, rfl⟩ := hi
    exact (hfree m hm).symm
  exact ⟨id, hid, hne, hout 1 (by simp), hout 2 (by simp)⟩

end WsChat
