import WsChat.Nicks

/-! `/bannick` and `/unbannick`: on which nicks they act, and what undoes what. -/
namespace WsChat
open Lib

section
variable {env : Env} {w w₀ w₁ : World} {e : Event} {m : MemberPtr} {r : RoomPtr} {n : Bytes}
  {parser : RegexParser}

/-- From one world to another exactly one nick was banned in the room and its holder put out. -/
structure Room.BansNick (w w' : World) (r : RoomPtr) (n : Bytes) : Prop where
  banned : ∀ x, x ∈ (w'.roomAt r).bannedNicks ↔ x ∈ (w.roomAt r).bannedNicks ∨ x = n
  members : ∀ m, m ∈ (w'.roomAt r).members ↔ m ∈ (w.roomAt r).members ∧ (w.memberAt m).nick ≠ n

theorem Member.overLimit_calm (h : Calm w₀ w) (m : MemberPtr) (size limit : Nat) :
    Member.overLimit w m size limit = Member.overLimit w₀ m size limit := by
  rw [Member.overLimit, Member.overLimit, Member.isAdmin_congr (by rw [h.memberAt]) (h.uid _)]

theorem IsNick.ne_nil (h : IsNick n) : n ≠ [] := by
  intro hnil
  obtain ⟨us, hus, hlen, -, hn⟩ := h.letters
  cases us with
  | nil => exact absurd hlen (by simp)
  | cons u us =>
    rw [hnil, List.flatten_cons, eq_comm, List.append_eq_nil_iff] at hn
    exact (hus u List.mem_cons_self).bytes.1 hn.1

theorem IsNick.dropWhile (h : IsNick n) : n.dropWhile isSpace = n := by
  have hneat := ((isNick_iff n).mp h).2
  cases n with
  | nil => rfl
  | cons b n => exact List.dropWhile_cons_of_neg (hneat.front b rfl)

theorem Member.reply_roomAt (w : World) (m : MemberPtr) (msg : Bytes) : (Member.reply w m msg).roomAt = w.roomAt := by
  rw [Member.reply_eq]
  rfl

theorem Room.BansNick.congr {w' w'' : World} (h : Room.BansNick w w' r n) (he : w''.roomAt = w'.roomAt) :
    Room.BansNick w w'' r n := ⟨he ▸ h.banned, he ▸ h.members⟩

theorem Room.BansNick.calm {w' : World} (h : Room.BansNick w₁ w' r n) (hcalm : Calm w w₁) :
    Room.BansNick w w' r n := by
  constructor
  · intro x
    rw [h.banned x, hcalm.roomAt]
  · intro m
    rw [h.members m, hcalm.roomAt, hcalm.memberAt]

theorem Room.bansNick_insert (hne : n ≠ []) (hfree : Room.findMemberByNick w r n = none) :
    Room.BansNick w (w.modifyRoom r fun rm => { rm with bannedNicks := rm.bannedNicks.insert n }) r n := by
  constructor
  · intro x
    simp [or_comm]
  · intro m
    have hother := (Room.findMemberByNick_eq_none hne).mp hfree m
    simpa using hother

theorem Room.bansNick_kick (hs : Seated w) (hne : n ≠ []) {m2 : MemberPtr}
    (hheld : Room.findMemberByNick w r n = some m2) :
    Room.BansNick w (Room.kickMember env
      (w.modifyRoom r fun rm => { rm with bannedNicks := rm.bannedNicks.insert n }) r m2) r n := by
  have hm2 : m2 ∈ (w.roomAt r).members := List.mem_of_find?_eq_some hheld
  have hnick : (w.memberAt m2).nick = n := by
    have hfound := List.find?_some hheld
    simp only [Bool.and_eq_true, beq_iff_eq] at hfound
    exact hfound.2
  rw [Room.kickMember_eq]
  constructor
  · intro x
    simp [or_comm]
  · intro m
    have hholder : m ∈ (w.roomAt r).members → (m ≠ m2 ↔ (w.memberAt m).nick ≠ n) := by
      intro hm
      constructor
      · intro hother hsame
        exact hother (hs.nicks r m hm m2 hm2 (hsame.trans hnick.symm) (hsame ▸ hne))
      · intro hnot hsame
        exact hnot (hsame ▸ hnick)
    have hiff : m ∈ (w.roomAt r).members.erase m2 ↔ m ∈ (w.roomAt r).members ∧ (w.memberAt m).nick ≠ n := by
      rw [IterSet.mem_erase, and_comm]
      exact and_congr_right hholder
    simpa using hiff

theorem CommandBanNick.process_acts (env : Env) (hs : Seated w)
    (hlimit : Member.overLimit w m (w.roomAt (w.memberAt m).room).bannedNicks.size 100 = false)
    (harg : parser.suffix = n) (hne : n ≠ []) (hlen : n.length ≤ 24)
    (hnew : n ∉ (w.roomAt (w.memberAt m).room).bannedNicks) :
    Room.BansNick w (CommandBanNick.process env w m parser) (w.memberAt m).room n := by
  unfold CommandBanNick.process Command.withNick
  dsimp only
  rw [hlimit, if_neg Bool.false_ne_true, harg, if_neg (by simp [hne, hlen]), if_neg hnew]
  have hsame : Room.findMemberByNick (w.modifyRoom (w.memberAt m).room fun rm =>
      { rm with bannedNicks := rm.bannedNicks.insert n }) (w.memberAt m).room n =
      Room.findMemberByNick w (w.memberAt m).room n := by
    simp [Room.findMemberByNick]
  rw [hsame]
  cases hheld : Room.findMemberByNick w (w.memberAt m).room n with
  | none => exact (Room.bansNick_insert hne hheld).congr (Member.reply_roomAt _ _ _)
  | some m2 => exact (Room.bansNick_kick hs hne hheld).congr (Member.reply_roomAt _ _ _)

theorem CommandBanNick.process_long (harg : parser.suffix = n) (hlen : 24 < n.length) :
    (CommandBanNick.process env w m parser).roomAt = w.roomAt := by
  unfold CommandBanNick.process Command.withNick
  dsimp only
  rw [harg, if_pos (Or.inl hlen)]
  split
  · exact Member.reply_roomAt _ _ _
  · exact Member.reply_roomAt _ _ _

theorem CommandUnbanNick.process_acts (harg : parser.suffix = n) (hne : n ≠ []) (hlen : n.length ≤ 24) (x : Bytes) :
    x ∈ ((CommandUnbanNick.process w m parser).roomAt (w.memberAt m).room).bannedNicks ↔
      x ≠ n ∧ x ∈ (w.roomAt (w.memberAt m).room).bannedNicks := by
  unfold CommandUnbanNick.process Command.withNick Command.update
  dsimp only
  rw [harg, if_neg (by simp [hne, hlen])]
  by_cases hbanned : n ∈ (w.roomAt (w.memberAt m).room).bannedNicks
  · rw [if_pos (decide_eq_true hbanned), Member.reply_roomAt]
    simp
  · rw [if_neg (by simp [hbanned]), Member.reply_roomAt]
    constructor
    · intro hx
      exact ⟨fun he => hbanned (he ▸ hx), hx⟩
    · exact And.right

theorem World.step_banNick (hw : WF env w) (hs : Seated w) (h : w.Utters e m (Command.banNick.line n))
    (hflood : ¬ w.Floods e m) (hmoder : Member.isModer w m)
    (hlimit : Member.overLimit w m (w.roomAt (w.memberAt m).room).bannedNicks.size 100 = false) (hnick : IsNick n)
    (hnew : n ∉ (w.roomAt (w.memberAt m).room).bannedNicks) :
    (n.length ≤ 24 → Room.BansNick w (w.step env e) (w.memberAt m).room n) ∧
      (24 < n.length → (w.step env e).roomAt = w.roomAt) := by
  obtain ⟨w₁, parser, hcalm, -, hat, hstep⟩ := World.step_command hw h hflood
  have hgranted : Command.banNick.Granted w m := by
    simp [Command.Granted, cmdModer, hmoder]
  rw [if_pos hgranted] at hstep
  rw [hnick.dropWhile] at hat
  rw [show w.step env e = CommandBanNick.process env w₁ m parser from hstep]
  constructor
  · intro hlen
    have hs₁ : Seated w₁ := hs.congr hcalm.memberAt fun r => by rw [hcalm.roomAt]
    rw [← hcalm.roomAt, ← hcalm.memberAt] at hlimit hnew
    rw [← Member.overLimit_calm hcalm] at hlimit
    have hbans := CommandBanNick.process_acts env hs₁ hlimit hat.suffix hnick.ne_nil hlen hnew
    rw [hcalm.memberAt] at hbans
    exact hbans.calm hcalm
  · intro hlen
    rw [CommandBanNick.process_long hat.suffix hlen, hcalm.roomAt]

theorem World.step_unbanNick (hw : WF env w) (h : w.Utters e m (Command.unbanNick.line n))
    (hflood : ¬ w.Floods e m) (hmoder : Member.isModer w m) (hnick : IsNick n) (hlen : n.length ≤ 24) (x : Bytes) :
    x ∈ ((w.step env e).roomAt (w.memberAt m).room).bannedNicks ↔
      x ≠ n ∧ x ∈ (w.roomAt (w.memberAt m).room).bannedNicks := by
  obtain ⟨w₁, parser, hcalm, -, hat, hstep⟩ := World.step_command hw h hflood
  have hgranted : Command.unbanNick.Granted w m := by
    simp [Command.Granted, cmdModer, hmoder]
  rw [if_pos hgranted] at hstep
  rw [hnick.dropWhile] at hat
  rw [show w.step env e = CommandUnbanNick.process w₁ m parser from hstep, ← hcalm.roomAt, ← hcalm.memberAt]
  exact CommandUnbanNick.process_acts hat.suffix hnick.ne_nil hlen x

end

/-- A moderator bans a nick and can take that back if and only if the nick takes at most 24
bytes. -/
theorem run_banNick_iff (env : Env) (es : List Event) (e : Event) (m : MemberPtr) (n : Bytes) :
    let w := run env es
    let w' := w.step env e
    let r := (w.memberAt m).room
    w.Utters e m (Command.banNick.line n) → ¬ w.Floods e m → Member.isModer w m →
      Member.overLimit w m (w.roomAt r).bannedNicks.size 100 = false → IsNick n →
      n ∉ (w.roomAt r).bannedNicks →
      ((Room.BansNick w w' r n ∧ ∀ es' e' m',
          let v := run env (es ++ e :: es')
          let r' := (v.memberAt m').room
          v.Utters e' m' (Command.unbanNick.line n) → ¬ v.Floods e' m' → Member.isModer v m' →
            (∀ x, x ∈ (v.roomAt r').bannedNicks ↔ x ∈ (w'.roomAt r).bannedNicks) →
            ∀ x, x ∈ ((v.step env e').roomAt r').bannedNicks ↔ x ∈ (w.roomAt r).bannedNicks) ↔
        n.length ≤ 24) := by
  intro w w' r hutters hflood hmoder hlimit hnick hnew
  obtain ⟨hshort, hlong⟩ :=
    World.step_banNick (wf_run env es) (seated_run env es) hutters hflood hmoder hlimit hnick hnew
  constructor
  · intro h
    by_contra hlen
    have hsame := hlong (not_le.mp hlen)
    apply hnew
    rw [← hsame]
    exact (h.1.banned n).mpr (.inr rfl)
  · intro hlen
    have hbans := hshort hlen
    refine ⟨hbans, ?_⟩
    intro es' e' m' v r' hutters' hflood' hmoder' hsame x
    rw [World.step_unbanNick (wf_run env _) hutters' hflood' hmoder' hnick hlen x, hsame x]
    have hx := hbans.banned x
    constructor
    · intro h
      exact (hx.mp h.2).resolve_right h.1
    · intro h
      exact ⟨fun he => hnew (he ▸ h), hx.mpr (.inl h)⟩

theorem Sample.isNick_foo : IsNick (utf8 "foo") :=
  .of_bytes (by decide) (by decide) (by decide) (by decide) (by decide) (by decide)

theorem run_banNick_iff_guest :
    let w := run Sample.surroundings Sample.room
    Room.BansNick w (w.step Sample.surroundings (Sample.sends 7 1 (Sample.line (Command.banNick.line (utf8 "foo")))))
      ⟨0⟩ (utf8 "foo") := by
  intro w
  exact ((run_banNick_iff Sample.surroundings Sample.room _ ⟨0⟩ (utf8 "foo")
    (Sample.utters (by decide +kernel)) (by decide +kernel)
    (by decide +kernel) (by decide +kernel) Sample.isNick_foo (by decide +kernel)).mpr (by decide)).1

def Sample.long : Bytes := utf8 "ааааааааааааа"

def Sample.longNick : List Event :=
  Sample.room ++ [Sample.sends 7 2 (Sample.line (Command.nick.line Sample.long))]

/-- The guest holds a nick of thirteen letters, the owner bans it, and nothing happens. -/
theorem banNick_fails_long :
    let w := run Sample.surroundings Sample.longNick
    let e := Sample.sends 8 1 (Sample.line (Command.banNick.line Sample.long))
    let w' := w.step Sample.surroundings e
    let r := (w.memberAt ⟨0⟩).room
    w.Utters e ⟨0⟩ (Command.banNick.line Sample.long) ∧ IsNick Sample.long ∧
      (¬ w.Floods e ⟨0⟩ ∧ Member.isModer w ⟨0⟩ ∧
        Member.overLimit w ⟨0⟩ (w.roomAt r).bannedNicks.size 100 = false ∧
        Sample.long ∉ (w.roomAt r).bannedNicks ∧ ⟨1⟩ ∈ (w.roomAt r).members ∧
        (w.memberAt ⟨1⟩).nick = Sample.long ∧ ⟨1⟩ ∈ (w'.roomAt r).members) ∧
      ¬ Room.BansNick w w' r Sample.long := by
  intro w e w' r
  have hnick : IsNick Sample.long := by
    refine ⟨⟨List.replicate 13 (utf8 "а"), ?_, by decide, by decide, by decide +kernel⟩, by decide +kernel,
      by decide +kernel, by decide +kernel⟩
    intro u hu
    exact .inr ⟨"а", by decide, List.eq_of_mem_replicate hu⟩
  have hstays : Sample.long ∉ (w'.roomAt r).bannedNicks := by decide +kernel
  refine ⟨Sample.utters (by decide +kernel), hnick, by decide +kernel, ?_⟩
  intro hbans
  exact hstays ((hbans.banned Sample.long).mpr (.inr rfl))

end WsChat
