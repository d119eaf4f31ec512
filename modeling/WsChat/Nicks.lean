import WsChat.CommandLine

/-! `/nick`: the normal form of its argument, the nicks it accepts, and the only two outcomes
of the command. -/
namespace WsChat
open Lib

/-- A letter of a nick: one byte, or a Russian letter of two. -/
def NickLetter (u : Bytes) : Prop :=
  (∃ b : UInt8, (Rx.isLetter b || isDigit b || b == 45 || b == 95 || b == 46 || b == 32) = true ∧ u = [b]) ∨
    ∃ s ∈ Rx.russian, u = utf8 s

/-- A canonical nick: 1 to 24 letters, with no blank in front, behind, or next to another. -/
structure IsNick (n : Bytes) : Prop where
  letters : ∃ us : List Bytes, (∀ u ∈ us, NickLetter u) ∧ 1 ≤ us.length ∧ us.length ≤ 24 ∧ n = us.flatten
  front : n.head? ≠ some 32
  back : n.getLast? ≠ some 32
  single : ¬ [32, 32] <:+: n

theorem CommandNick.normalize_eq (s : Bytes) :
    CommandNick.normalize s = Regex.collapse isSpace 2 [32] ((s.rdropWhile isSpace).dropWhile isSpace) := by
  unfold CommandNick.normalize Rx.longSpaces Rx.spaces Rx.endSpaces Rx.space
  rw [Regex.replace_end, Regex.replace_front, Regex.replace_rep _ (by omega)]

theorem CommandNick.normalize_dropWhile (s : Bytes) :
    CommandNick.normalize (s.dropWhile isSpace) = CommandNick.normalize s := by
  rw [CommandNick.normalize_eq, CommandNick.normalize_eq, Regex.rdropWhile_dropWhile]

structure Neat (s : Bytes) : Prop where
  front : ∀ b ∈ s.head?, ¬ isSpace b
  back : ∀ b ∈ s.getLast?, ¬ isSpace b
  single : Regex.ShortRuns isSpace 1 s

theorem CommandNick.normalize_neat (s : Bytes) : Neat (CommandNick.normalize s) := by
  have hfront : ∀ b ∈ ((s.rdropWhile isSpace).dropWhile isSpace).head?, ¬ isSpace b := by
    intro b hb
    have := List.head?_dropWhile_not isSpace (s.rdropWhile isSpace)
    rw [Option.mem_def.mp hb] at this
    simpa using this
  have hlast : ∀ b ∈ (s.rdropWhile isSpace).getLast?, ¬ isSpace b := by
    intro b hb
    obtain ⟨hne, rfl⟩ := List.mem_getLast?_eq_getLast hb
    exact List.rdropWhile_last_not isSpace s hne
  have hback : ∀ b ∈ ((s.rdropWhile isSpace).dropWhile isSpace).getLast?, ¬ isSpace b := by
    rw [Regex.getLast?_dropWhile isSpace hlast]
    exact hlast
  rw [CommandNick.normalize_eq]
  refine ⟨?_, ?_, ?_⟩
  · rw [Regex.head?_collapse _ (by omega) _ hfront]
    exact hfront
  · rw [Regex.getLast?_collapse _ (by omega) _ hback]
    exact hback
  · exact Regex.shortRuns_collapse isSpace (by omega) (by omega) (by simp [isSpace]) (by simp) _

theorem CommandNick.normalize_of_neat {s : Bytes} (h : Neat s) : CommandNick.normalize s = s := by
  have hback : s.rdropWhile isSpace = s := by
    apply List.rdropWhile_eq_self_iff.mpr
    intro hne
    exact h.back _ (List.getLast?_eq_some_getLast hne)
  have hfront : s.dropWhile isSpace = s := by
    cases s with
    | nil => rfl
    | cons b s => exact List.dropWhile_cons_of_neg (h.front b rfl)
  rw [CommandNick.normalize_eq, hback, hfront]
  apply Regex.collapse_eq_self isSpace (by omega)
  intro t ht hlong
  have := h.single t ht
  omega

theorem Rx.reads_letter : Regex.Reads (.alt (.cls fun b => Rx.isLetter b || isDigit b || b == 45 || b == 95 ||
    b == 46 || b == 32) Rx.anyRussian) NickLetter := by
  have hwords := Regex.reads_oneOf (Rx.russian.map utf8)
  rw [List.map_map] at hwords
  apply ((Regex.reads_cls _).alt hwords).congr
  intro u
  simp only [NickLetter, List.mem_map, eq_comm (a := u)]

theorem NickLetter.bytes {u : Bytes} (h : NickLetter u) : u ≠ [] ∧ ∀ b ∈ u, isSpace b → b = 32 := by
  cases h with
  | inl h =>
    obtain ⟨b, hb, rfl⟩ := h
    refine ⟨List.cons_ne_nil b [], ?_⟩
    intro b' hb' hs
    rw [List.mem_singleton.mp hb'] at hs ⊢
    simp only [Rx.isLetter, isDigit, isSpace, Bool.or_eq_true, Bool.and_eq_true, beq_iff_eq,
      decide_eq_true_eq, UInt8.le_iff_toNat_le, ← UInt8.toNat_inj, UInt8.reduceToNat] at hb hs ⊢
    omega
  | inr h =>
    obtain ⟨s, hs, rfl⟩ := h
    have hall : (Rx.russian.all fun s => utf8 s != [] && (utf8 s).all fun b => !isSpace b) = true := by
      decide +kernel
    have hletter := List.all_eq_true.mp hall s hs
    simp only [Bool.and_eq_true, bne_iff_ne, List.all_eq_true, Bool.not_eq_true'] at hletter
    refine ⟨hletter.1, ?_⟩
    intro b hb hsp
    rw [hletter.2 b hb] at hsp
    cases hsp

theorem Rx.login_fullMatch (n : Bytes) : Rx.login.fullMatch n ↔
    ∃ us : List Bytes, (∀ u ∈ us, NickLetter u) ∧ 1 ≤ us.length ∧ us.length ≤ 24 ∧ n = us.flatten := by
  have hread := Rx.reads_letter.rep (fun h => h.bytes.1 rfl) 1 (some 24) (by simp)
  refine (hread.fullMatch n).trans ?_
  simp only [Regex.Turns, Option.some.injEq, forall_eq', and_assoc]

theorem isNick_iff (n : Bytes) : IsNick n ↔ Rx.login.fullMatch n ∧ Neat n := by
  rw [Rx.login_fullMatch]
  constructor
  · intro h
    refine ⟨h.letters, ?_⟩
    obtain ⟨us, hus, -, -, hn⟩ := h.letters
    have hspace : ∀ b ∈ n, isSpace b → b = 32 := by
      intro b hb
      rw [hn] at hb
      obtain ⟨u, hu, hbu⟩ := List.mem_flatten.mp hb
      exact (hus u hu).bytes.2 b hbu
    refine ⟨?_, ?_, ?_⟩
    · intro b hb hs
      exact h.front (hspace b (List.mem_of_mem_head? hb) hs ▸ hb)
    · intro b hb hs
      exact h.back (hspace b (List.mem_of_getLast? hb) hs ▸ hb)
    · apply ((Regex.shortRuns_iff 32 1 n).mpr h.single).anti
      intro b hb hs
      exact decide_eq_true (hspace b hb hs)
  · intro h
    obtain ⟨hletters, hneat⟩ := h
    refine ⟨hletters, ?_, ?_, ?_⟩
    · intro hb
      exact hneat.front 32 hb (by decide)
    · intro hb
      exact hneat.back 32 hb (by decide)
    · apply (Regex.shortRuns_iff 32 1 n).mp
      apply hneat.single.anti
      intro b _ hb
      rw [of_decide_eq_true hb]
      decide

theorem CommandNick.accepts_normalize (s : Bytes) :
    Rx.login.fullMatch (CommandNick.normalize s) ↔ IsNick (CommandNick.normalize s) := by
  rw [isNick_iff]
  exact ⟨fun h => ⟨h, CommandNick.normalize_neat s⟩, fun h => h.1⟩

section
variable {env : Env} {w : World} {m : MemberPtr} {parser : RegexParser} {n : Bytes}

theorem Room.findMemberByNick_eq_none {r : RoomPtr} (hne : n ≠ []) :
    Room.findMemberByNick w r n = none ↔ ∀ m ∈ (w.roomAt r).members, (w.memberAt m).nick ≠ n := by
  constructor
  · intro h
    exact Room.nick_free h hne
  · intro h
    apply List.find?_eq_none.mpr
    intro m hm hfound
    simp only [Bool.and_eq_true, beq_iff_eq] at hfound
    exact h m hm hfound.2

def Member.Alone (w : World) (m : MemberPtr) (n : Bytes) : Prop :=
  ∀ m2 ∈ (w.roomAt (w.memberAt m).room).members, m2 ≠ m → (w.memberAt m2).nick ≠ n

instance (w : World) (m : MemberPtr) (n : Bytes) : Decidable (Member.Alone w m n) :=
  decidable_of_iff (∀ m2 ∈ (w.roomAt (w.memberAt m).room).members.elems, m2 ≠ m → (w.memberAt m2).nick ≠ n)
    (by simp only [Member.Alone, IterSet.mem_elems])

/-- The member may take a nick, or give its own up. -/
structure Member.MayTake (w : World) (m : MemberPtr) (n : Bytes) : Prop where
  canonical : n = [] ∨ (IsNick n ∧ Member.Alone w m n)
  changed : n ≠ (w.memberAt m).nick
  allowed : n ∉ (w.roomAt (w.memberAt m).room).bannedNicks ∨ Member.isModer w m

def World.Answers (w : World) (m : MemberPtr) (w' : World) : Prop :=
  ∃ msg : PacketSystem, w' = w.emit (w.mail (w.memberAt m).client (.packet (.system msg)))

theorem Member.reply_answers (msg : Bytes) : w.Answers m (Member.reply w m msg) := ⟨_, Member.reply_eq w m msg⟩

theorem Member.setNick_of_not (h : n = (w.memberAt m).nick ∨
    ¬ (n ∉ (w.roomAt (w.memberAt m).room).bannedNicks ∨ Member.isModer w m)) :
    Member.setNick env w m n = w ∨ w.Answers m (Member.setNick env w m n) := by
  unfold Member.setNick
  dsimp only
  by_cases hsame : (w.memberAt m).nick = n
  · rw [if_pos hsame]
    exact .inl rfl
  · have hban := h.resolve_left fun he => hsame he.symm
    rw [if_neg hsame, if_pos (by simpa [and_comm] using hban)]
    exact .inr ⟨_, Member.sendPacket_eq w m _⟩

theorem Member.setNick_of_may (hne : n ≠ (w.memberAt m).nick)
    (h : n ∉ (w.roomAt (w.memberAt m).room).bannedNicks ∨ Member.isModer w m) :
    ∃ out, Member.setNick env w m n = (w.modifyMember m fun mem => { mem with nick := n }).emit out := by
  unfold Member.setNick
  dsimp only
  rw [if_neg hne.symm, if_neg (by simpa [or_iff_not_imp_left] using h.symm), Room.sendPacketToAll_status]
  exact ⟨_, rfl⟩

theorem CommandNick.process_cases (env : Env) (hn : CommandNick.normalize parser.suffix = n) :
    (Member.MayTake w m n ∧
      ∃ out, CommandNick.process env w m parser = (w.modifyMember m fun mem => { mem with nick := n }).emit out) ∨
    (¬ Member.MayTake w m n ∧
      (CommandNick.process env w m parser = w ∨ w.Answers m (CommandNick.process env w m parser))) := by
  have hcanon : Rx.login.fullMatch n ↔ IsNick n := hn ▸ CommandNick.accepts_normalize _
  unfold CommandNick.process
  dsimp only
  rw [hn]
  by_cases haccept : n = [] ∨ Rx.login.fullMatch n
  · rw [if_pos haccept]
    by_cases htaken : n ≠ [] ∧ (Room.findMemberByNick w (w.memberAt m).room n).isSome
    · rw [if_pos htaken]
      refine .inr ⟨?_, .inr (Member.reply_answers _)⟩
      intro hmay
      have hfree : Room.findMemberByNick w (w.memberAt m).room n = none := by
        rw [Room.findMemberByNick_eq_none htaken.1]
        intro m2 hm2
        by_cases hself : m2 = m
        · exact hself ▸ hmay.changed.symm
        · exact (hmay.canonical.resolve_left htaken.1).2 m2 hm2 hself
      simp [hfree] at htaken
    · rw [if_neg htaken]
      have halone : n = [] ∨ (IsNick n ∧ Member.Alone w m n) := by
        by_cases hnil : n = []
        · exact .inl hnil
        · have hnone : Room.findMemberByNick w (w.memberAt m).room n = none := by simpa [hnil] using htaken
          refine .inr ⟨hcanon.mp (haccept.resolve_left hnil), ?_⟩
          intro m2 hm2 _
          exact (Room.findMemberByNick_eq_none hnil).mp hnone m2 hm2
      by_cases hmay : n ≠ (w.memberAt m).nick ∧
          (n ∉ (w.roomAt (w.memberAt m).room).bannedNicks ∨ Member.isModer w m)
      · exact .inl ⟨⟨halone, hmay.1, hmay.2⟩, Member.setNick_of_may hmay.1 hmay.2⟩
      · refine .inr ⟨fun h => hmay ⟨h.changed, h.allowed⟩, Member.setNick_of_not ?_⟩
        by_cases hsame : n = (w.memberAt m).nick
        · exact .inl hsame
        · exact .inr fun h => hmay ⟨hsame, h⟩
  · rw [if_neg haccept]
    refine .inr ⟨?_, .inr (Member.reply_answers _)⟩
    intro hmay
    exact haccept (hmay.canonical.imp_right fun h => hcanon.mpr h.1)

theorem Calm.mayTake {w₀ : World} (h : Calm w₀ w) : Member.MayTake w m n ↔ Member.MayTake w₀ m n := by
  have halone : Member.Alone w m n ↔ Member.Alone w₀ m n := by
    unfold Member.Alone
    rw [h.memberAt, h.roomAt]
  have hmoder : Member.isModer w m = Member.isModer w₀ m := h.isModer m
  constructor
  · intro hmay
    have hallowed := hmay.allowed
    rw [h.memberAt, h.roomAt, hmoder] at hallowed
    exact ⟨hmay.canonical.imp_right fun hc => ⟨hc.1, halone.mp hc.2⟩, h.memberAt ▸ hmay.changed, hallowed⟩
  · intro hmay
    refine ⟨hmay.canonical.imp_right fun hc => ⟨hc.1, halone.mpr hc.2⟩, h.memberAt ▸ hmay.changed, ?_⟩
    rw [h.memberAt, h.roomAt, hmoder]
    exact hmay.allowed

theorem World.step_nick {e : Event} {s : Bytes} (hw : WF env w) (h : w.Utters e m (Command.nick.line s))
    (hflood : ¬ w.Floods e m) (hn : CommandNick.normalize s = n) :
    let w' := w.step env e
    (Member.MayTake w m n ∧ w'.roomAt = w.roomAt ∧
      w'.memberAt = Function.update w.memberAt m { w.memberAt m with nick := n }) ∨
    (¬ Member.MayTake w m n ∧ w'.roomAt = w.roomAt ∧ w'.memberAt = w.memberAt ∧
      (w'.sent = w.sent ∨ ∃ msg : PacketSystem,
        w'.sent = w.sent ++ w.mail (w.memberAt m).client (.packet (.system msg)))) := by
  intro w'
  obtain ⟨w₁, parser, hcalm, -, hat, hstep⟩ := World.step_command hw h hflood
  have hgranted : Command.nick.Granted w m := by
    simp [Command.Granted, cmdAll]
  rw [if_pos hgranted] at hstep
  have hnorm : CommandNick.normalize parser.suffix = n := by
    rw [hat.suffix, CommandNick.normalize_dropWhile, hn]
  have hw' : w' = CommandNick.process env w₁ m parser := hstep
  rw [hw']
  cases CommandNick.process_cases env hnorm (w := w₁) (m := m) with
  | inl h =>
    obtain ⟨hmay, out, hout⟩ := h
    refine .inl ⟨hcalm.mayTake.mp hmay, ?_, ?_⟩
    · rw [hout, World.emit_roomAt, World.modifyMember_roomAt, hcalm.roomAt]
    · rw [hout, World.emit_memberAt, ← hcalm.memberAt]
      rfl
  | inr h =>
    obtain ⟨hmay, hout⟩ := h
    refine .inr ⟨fun h => hmay (hcalm.mayTake.mpr h), ?_⟩
    cases hout with
    | inl hsame =>
      rw [hsame]
      exact ⟨hcalm.roomAt, hcalm.memberAt, .inl hcalm.sent⟩
    | inr hanswer =>
      obtain ⟨msg, hmsg⟩ := hanswer
      rw [hmsg, World.emit_roomAt, World.emit_memberAt, World.emit_sent, hcalm.mail, hcalm.memberAt, hcalm.sent]
      exact ⟨hcalm.roomAt, rfl, .inr ⟨msg, rfl⟩⟩

/-- A member takes a nick by `/nick` if and only if it may, the nick being the normal form of the
argument; nothing else happens to nicks, and who is told of a refusal is the member alone. -/
theorem run_nick_canonical (env : Env) :
    (∀ s, CommandNick.normalize s =
        Regex.collapse isSpace 2 [32] ((s.rdropWhile isSpace).dropWhile isSpace) ∧
      CommandNick.normalize (CommandNick.normalize s) = CommandNick.normalize s) ∧
    ∀ es e m s, (run env es).Utters e m (Command.nick.line s) →
      let w := run env es
      let w' := w.step env e
      let n := CommandNick.normalize s
      (((w'.memberAt m).nick = (w.memberAt m).nick ∧ ∃ out, w'.sent = w.sent ++ out ∧
          ∀ x ∈ out, ∃ msg : PacketSystem, x ∈ w.mail (w.memberAt m).client (.packet (.system msg))) ∨
        ((w'.memberAt m).nick = n ∧ (n = [] ∨ (IsNick n ∧ Member.Alone w' m n)))) ∧
      (¬ w.Floods e m → n = [] ∨ (IsNick n ∧ Member.Alone w m n) → n ≠ (w.memberAt m).nick →
        n ∉ (w.roomAt (w.memberAt m).room).bannedNicks ∨ Member.isModer w m → (w'.memberAt m).nick = n) := by
  constructor
  · intro s
    exact ⟨CommandNick.normalize_eq s, CommandNick.normalize_of_neat (CommandNick.normalize_neat s)⟩
  · intro es e m s hutters w w' n
    have hw : WF env w := wf_run env es
    by_cases hflood : w.Floods e m
    · obtain ⟨-, hmember, msg, hsent⟩ := World.step_flood env hutters hflood
      refine ⟨.inl ⟨by rw [hmember], _, hsent, fun x hx => ⟨msg, hx⟩⟩, fun h => absurd hflood h⟩
    cases World.step_nick hw hutters hflood (n := n) rfl with
    | inl h =>
      obtain ⟨hmay, hroom, hmember⟩ := h
      have hnick : (w'.memberAt m).nick = n := by
        rw [hmember, Function.update_self]
      refine ⟨.inr ⟨hnick, hmay.canonical.imp_right fun hc => ⟨hc.1, ?_⟩⟩, fun _ _ _ _ => hnick⟩
      intro m2 hm2 hself
      rw [hroom, hmember, Function.update_self] at hm2
      rw [hmember, Function.update_of_ne hself]
      exact hc.2 m2 hm2 hself
    | inr h =>
      obtain ⟨hmay, -, hmember, hsent⟩ := h
      constructor
      · refine .inl ⟨by rw [hmember], ?_⟩
        cases hsent with
        | inl hsame => exact ⟨[], by rw [hsame, List.append_nil], by simp⟩
        | inr hanswer =>
          obtain ⟨msg, hmsg⟩ := hanswer
          exact ⟨_, hmsg, fun x hx => ⟨msg, hx⟩⟩
      · intro _ hcanonical hchanged hallowed
        exact absurd ⟨hcanonical, hchanged, hallowed⟩ hmay

end

theorem Sample.utters {w : World} {now : Int} {k : Nat} {m : MemberPtr} {text : Bytes}
    (h : m ∈ (w.roomAt (w.memberAt m).room).members ∧
      w.messageOf (Sample.sends now k (Sample.line text)) (w.memberAt m).client =
        some { target := utf8 "#room", message := text } ∧
      (w.roomAt (w.memberAt m).room).name = utf8 "#room") :
    w.Utters (Sample.sends now k (Sample.line text)) m text :=
  ⟨h.1, _, h.2.1, h.2.2.symm, rfl⟩

theorem IsNick.of_bytes {n : Bytes} (hn : n.all fun b =>
    Rx.isLetter b || isDigit b || b == 45 || b == 95 || b == 46 || b == 32) (hpos : 1 ≤ n.length)
    (hlen : n.length ≤ 24) (hfront : n.head? ≠ some 32) (hback : n.getLast? ≠ some 32)
    (hsingle : ¬ [32, 32] <:+: n) : IsNick n := by
  refine ⟨⟨n.map fun b => [b], ?_, by simpa using hpos, by simpa using hlen, ?_⟩, hfront, hback, hsingle⟩
  · intro u hu
    obtain ⟨b, hb, rfl⟩ := List.mem_map.mp hu
    exact .inl ⟨b, List.all_eq_true.mp hn b hb, rfl⟩
  · rw [← List.flatMap_def, List.flatMap_singleton']

theorem Sample.isNick_b : IsNick (utf8 "b") :=
  .of_bytes (by decide) (by decide) (by decide) (by decide) (by decide) (by decide)

theorem run_nick_canonical_owner :
    let w := run Sample.surroundings Sample.room
    let w' := w.step Sample.surroundings (Sample.sends 7 1 (Sample.line (Command.nick.line (utf8 " b "))))
    (w.memberAt ⟨0⟩).nick ≠ utf8 "b" ∧ (w'.memberAt ⟨0⟩).nick = CommandNick.normalize (utf8 " b ") ∧
      CommandNick.normalize (utf8 " b ") = utf8 "b" := by
  intro w w'
  have hnorm : CommandNick.normalize (utf8 " b ") = utf8 "b" := by decide +kernel
  have hchanged : (w.memberAt ⟨0⟩).nick ≠ utf8 "b" := by decide +kernel
  refine ⟨hchanged, ?_, hnorm⟩
  have hutters : w.Utters (Sample.sends 7 1 (Sample.line (Command.nick.line (utf8 " b ")))) ⟨0⟩ (Command.nick.line (utf8 " b ")) :=
    Sample.utters (by decide +kernel)
  refine ((run_nick_canonical Sample.surroundings).2 Sample.room _ ⟨0⟩ (utf8 " b ") hutters).2
    (by decide +kernel) ?_ ?_ (.inr (by decide +kernel))
  · rw [hnorm]
    exact .inr ⟨Sample.isNick_b, by decide +kernel⟩
  · rw [hnorm]
    exact hchanged.symm

end WsChat
