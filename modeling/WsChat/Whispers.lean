import WsChat.Moderation

/-! `/msg`: how the line falls into a nick and a text, and who gets the message. -/
namespace WsChat
open Lib

def firstWord (s : Bytes) : Bytes := s.takeWhile (!isSpace ·)

/-- The text after the first word and the blanks behind it. -/
def afterWord (s : Bytes) : Bytes := (s.dropWhile (!isSpace ·)).dropWhile isSpace

section
variable {env : Env} {w w₀ w₁ : World} {e : Event} {m m2 : MemberPtr} {r : RoomPtr} {n t arg : Bytes}
  {parser : RegexParser}

theorem RegexParser.next_toSpace {p : RegexParser} {arg : Bytes} (hp : p.nextInput = arg) :
    (if (p.next Rx.toSpace).1 then ((p.next Rx.toSpace).2.read 0).getD [] else []) = firstWord arg ∧
      (p.next Rx.toSpace).2.nextInput = arg.dropWhile (!isSpace ·) := by
  by_cases hne : arg = []
  · have hnext : p.next Rx.toSpace = (false, p) := if_pos (hp.trans hne)
    rw [hnext, hp, hne]
    exact ⟨rfl, rfl⟩
  have hsearch := Regex.search_plus (fun b => !isSpace b) arg
  rw [← hp] at hne
  by_cases hnone : arg.takeWhile (fun b => !isSpace b) = []
  · rw [if_pos hnone] at hsearch
    have hsame : arg.dropWhile (!isSpace ·) = arg := by
      have happ := List.takeWhile_append_dropWhile (p := fun b => !isSpace b) (l := arg)
      rwa [hnone, List.nil_append] at happ
    rw [RegexParser.next_none hne (by rw [hp]; exact hsearch), hsame, firstWord, hnone]
    exact ⟨rfl, hp⟩
  · rw [if_neg hnone] at hsearch
    rw [RegexParser.next_some hne (by rw [hp]; exact hsearch)]
    exact ⟨rfl, rfl⟩

theorem CommandPrivateMessage.text_eq {p : RegexParser} {rest : Bytes} (hp : p.nextInput = rest)
    (hrest : Separated rest) : CommandPrivateMessage.text p = rest.dropWhile isSpace := by
  unfold CommandPrivateMessage.text
  cases rest with
  | nil =>
    have hnext : p.next Rx.spaces = (false, p) := if_pos hp
    rw [hnext]
    rfl
  | cons b rest =>
    have hsearch := Regex.search_plus isSpace (b :: rest)
    rw [if_neg (by simp [hrest b rfl])] at hsearch
    have hne : p.nextInput ≠ [] := by
      rw [hp]
      exact List.cons_ne_nil b rest
    rw [RegexParser.next_some hne (by rw [hp]; exact hsearch)]
    rfl

theorem separated_dropWhile (s : Bytes) : Separated (s.dropWhile (!isSpace ·)) := by
  intro b hb
  have hnot := List.head?_dropWhile_not (!isSpace ·) s
  rw [Option.mem_def.mp hb] at hnot
  simpa using hnot

theorem CommandPrivateMessage.process_eq (hat : parser.At arg) :
    CommandPrivateMessage.process w m parser =
      Member.whisper w m (Room.findMemberByNick w (w.memberAt m).room (firstWord arg)) (afterWord arg) := by
  obtain ⟨hword, hnext⟩ := RegexParser.next_toSpace hat.next
  unfold CommandPrivateMessage.process
  dsimp only
  rw [hword, CommandPrivateMessage.text_eq hnext (separated_dropWhile arg)]
  rfl

def World.privateWire (w : World) (now : Int) (m m2 : MemberPtr) (t : Bytes) : Wire :=
  .packet (.message { PacketMessage.ofMembers w m m2 t with msgtime := now })

theorem World.privateWire_text {now : Int} {m3 : MemberPtr} {t' : Bytes}
    (h : w.privateWire now m m2 t = w.privateWire now m m3 t') : t = t' := by
  simp only [World.privateWire, Wire.packet.injEq, Packet.message.injEq, PacketMessage.ofMembers,
    PacketMessage.ofMember, PacketMessage.mk.injEq] at h
  tauto

theorem Calm.privateWire (h : Calm w w₁) (hnow : w₁.now = e.now) (m m2 : MemberPtr) (t : Bytes) :
    Wire.packet (.message (PacketMessage.ofMembers w₁ m m2 t)) = w.privateWire e.now m m2 t := by
  unfold World.privateWire PacketMessage.ofMembers PacketMessage.ofMember
  rw [h.memberAt, h.roomAt, hnow]

/-- A whisper sends one message to the sender and to the addressee, or a complaint. -/
theorem Member.whisper_cases (w : World) (m : MemberPtr) (dest : Option MemberPtr) (t : Bytes) :
    (∃ m2, dest = some m2 ∧ ¬ Rx.blank.fullMatch t ∧ Member.whisper w m dest t = w.emit
      (w.mail (w.memberAt m).client (.packet (.message (PacketMessage.ofMembers w m m2 t))) ++
        w.mail (w.memberAt m2).client (.packet (.message (PacketMessage.ofMembers w m m2 t))))) ∨
    ((dest = none ∨ Rx.blank.fullMatch t) ∧ w.Answers m (Member.whisper w m dest t)) := by
  unfold Member.whisper
  by_cases hblank : Rx.blank.fullMatch t
  · rw [if_pos hblank]
    exact .inr ⟨.inr hblank, Member.reply_answers _⟩
  · rw [if_neg hblank]
    cases dest with
    | none => exact .inr ⟨.inl rfl, Member.reply_answers _⟩
    | some m2 =>
      refine .inl ⟨m2, rfl, hblank, ?_⟩
      dsimp only
      rw [Member.sendPacket_eq, Member.sendPacket_eq, World.emit_emit, World.emit_memberAt, World.mail_emit]

theorem Member.whisper_sent (hcalm : Calm w w₁) (hnow : w₁.now = e.now) (dest : Option MemberPtr) (t : Bytes) :
    (∃ m2, dest = some m2 ∧ ¬ Rx.blank.fullMatch t ∧ (Member.whisper w₁ m dest t).sent = w.sent ++
      (w.mail (w.memberAt m).client (w.privateWire e.now m m2 t) ++
        w.mail (w.memberAt m2).client (w.privateWire e.now m m2 t))) ∨
    ((dest = none ∨ Rx.blank.fullMatch t) ∧ ∃ msg : PacketSystem,
      (Member.whisper w₁ m dest t).sent = w.sent ++ w.mail (w.memberAt m).client (.packet (.system msg))) := by
  cases Member.whisper_cases w₁ m dest t with
  | inl h =>
    obtain ⟨m2, hdest, hblank, hsent⟩ := h
    refine .inl ⟨m2, hdest, hblank, ?_⟩
    rw [hsent, World.emit_sent, hcalm.sent, hcalm.mail, hcalm.mail, hcalm.privateWire hnow, hcalm.memberAt]
  | inr h =>
    obtain ⟨hnone, msg, hanswer⟩ := h
    refine .inr ⟨hnone, msg, ?_⟩
    rw [hanswer, World.emit_sent, hcalm.sent, hcalm.mail, hcalm.memberAt]

theorem World.step_msg (hw : WF env w) (h : w.Utters e m (Command.privateMessage.line arg))
    (hflood : ¬ w.Floods e m) (hnick : (w.memberAt m).hasNick) (harg : ∀ b ∈ arg.head?, ¬ isSpace b) :
    (∃ m2, Room.findMemberByNick w (w.memberAt m).room (firstWord arg) = some m2 ∧
      ¬ Rx.blank.fullMatch (afterWord arg) ∧ (w.step env e).sent = w.sent ++
        (w.mail (w.memberAt m).client (w.privateWire e.now m m2 (afterWord arg)) ++
          w.mail (w.memberAt m2).client (w.privateWire e.now m m2 (afterWord arg)))) ∨
    ((Room.findMemberByNick w (w.memberAt m).room (firstWord arg) = none ∨ Rx.blank.fullMatch (afterWord arg)) ∧
      ∃ msg : PacketSystem, (w.step env e).sent = w.sent ++ w.mail (w.memberAt m).client (.packet (.system msg))) := by
  obtain ⟨w₁, parser, hcalm, hnow, hat, hstep⟩ := World.step_command hw h hflood
  have hgranted : Command.privateMessage.Granted w m := by
    simp [Command.Granted, cmdUser, hnick]
  have hdrop : arg.dropWhile isSpace = arg := by
    cases arg with
    | nil => rfl
    | cons b arg => exact List.dropWhile_cons_of_neg (harg b rfl)
  have hfind : Room.findMemberByNick w₁ (w₁.memberAt m).room (firstWord arg) =
      Room.findMemberByNick w (w.memberAt m).room (firstWord arg) := by
    simp only [Room.findMemberByNick, hcalm.memberAt, hcalm.roomAt]
  rw [hdrop] at hat
  rw [if_pos hgranted] at hstep
  rw [show w.step env e = CommandPrivateMessage.process w₁ m parser from hstep,
    CommandPrivateMessage.process_eq hat, hfind]
  exact Member.whisper_sent hcalm hnow _ _

theorem firstWord_append (hn : ∀ b ∈ n, ¬ isSpace b) (t : Bytes) : firstWord (n ++ 32 :: t) = n := by
  have hnot : ∀ b ∈ n, (!isSpace b) = true := by simpa using hn
  rw [firstWord, List.takeWhile_append_of_pos hnot, List.takeWhile_cons_of_neg (by decide), List.append_nil]

theorem afterWord_append (hn : ∀ b ∈ n, ¬ isSpace b) (ht : ∀ b ∈ t.head?, ¬ isSpace b) :
    afterWord (n ++ 32 :: t) = t := by
  have hnot : ∀ b ∈ n, (!isSpace b) = true := by simpa using hn
  have hdrop : n.dropWhile (!isSpace ·) = [] := List.dropWhile_eq_nil_iff.mpr hnot
  rw [afterWord, List.dropWhile_append, hdrop, List.isEmpty_nil, if_pos rfl, List.dropWhile_cons_of_neg (by decide),
    List.dropWhile_cons_of_pos (by decide)]
  cases t with
  | nil => rfl
  | cons b t => exact List.dropWhile_cons_of_neg (ht b rfl)

theorem afterWord_append_space (hn : IsNick n) (hspace : 32 ∈ n) (t : Bytes) :
    t.length < (afterWord (n ++ 32 :: t)).length := by
  have hneat := ((isNick_iff n).mp hn).2
  have hrest : n.dropWhile (!isSpace ·) ≠ [] := by
    intro hnil
    have hall := List.dropWhile_eq_nil_iff.mp hnil 32 hspace
    exact absurd hall (by decide)
  have hafter : (n.dropWhile (!isSpace ·)).dropWhile isSpace ≠ [] := by
    intro hnil
    have hall := List.dropWhile_eq_nil_iff.mp hnil
    obtain ⟨u, hu⟩ := List.dropWhile_suffix (!isSpace ·) (l := n)
    have hlast : n.getLast? = some ((n.dropWhile (!isSpace ·)).getLast hrest) := by
      conv_lhs => rw [← hu]
      rw [List.getLast?_append, List.getLast?_eq_some_getLast hrest, Option.some_or]
    exact hneat.back _ hlast (hall _ (List.getLast_mem hrest))
  rw [afterWord, List.dropWhile_append, List.isEmpty_eq_false_iff.mpr hrest, if_neg Bool.false_ne_true,
    List.dropWhile_append, List.isEmpty_eq_false_iff.mpr hafter, if_neg Bool.false_ne_true, List.length_append,
    List.length_cons]
  omega

theorem IsNick.not_space (h : IsNick n) (hspace : 32 ∉ n) : ∀ b ∈ n, ¬ isSpace b := by
  intro b hb hs
  obtain ⟨us, hus, -, -, hn⟩ := h.letters
  rw [hn] at hb
  obtain ⟨u, hu, hbu⟩ := List.mem_flatten.mp hb
  have hb32 := (hus u hu).bytes.2 b hbu hs
  exact hspace (hn ▸ List.mem_flatten.mpr ⟨u, hu, hb32 ▸ hbu⟩)

theorem Room.findMemberByNick_eq (hs : Seated w) (hm2 : m2 ∈ (w.roomAt r).members) (hn : (w.memberAt m2).nick = n)
    (hne : n ≠ []) : Room.findMemberByNick w r n = some m2 := by
  refine IterSet.find?_unique hm2 (by simp [Member.hasNick, hn, hne]) ?_ (List.Perm.refl _)
  intro m hm hfound
  simp only [Bool.and_eq_true, beq_iff_eq] at hfound
  exact hs.nicks r m hm m2 hm2 (hfound.2.trans hn.symm) (hfound.2 ▸ hne)

end

/-- A private message reaches the member with the nick, and only it and the sender, if and only
if the nick has no space. The text `t` is the one the command processor gets, as the packet was
decoded and sanitized. -/
theorem run_msg_iff (env : Env) (es : List Event) (e : Event) (m m2 : MemberPtr) (n t : Bytes) :
    let w := run env es
    let x := w.privateWire e.now m m2 t
    w.Utters e m (Command.privateMessage.line (n ++ 32 :: t)) → ¬ w.Floods e m → (w.memberAt m).hasNick →
      m2 ∈ (w.roomAt (w.memberAt m).room).members → (w.memberAt m2).nick = n → IsNick n →
      (∃ b ∈ t.head?, ¬ isSpace b) →
      ((w.step env e).sent = w.sent ++ (w.mail (w.memberAt m).client x ++ w.mail (w.memberAt m2).client x) ↔
        32 ∉ n) := by
  intro w x hutters hflood hnick hm2 hn hcanonical htext
  have hw : WF env w := wf_run env es
  obtain ⟨b, hb, hnot⟩ := htext
  have ht : ∀ b ∈ t.head?, ¬ isSpace b := by
    intro b' hb'
    rw [Option.mem_unique hb' hb]
    exact hnot
  have hblank : ¬ Rx.blank.fullMatch t := by
    rw [Rx.blank, Rx.space, Regex.fullMatch_star, List.all_eq_true]
    intro hall
    exact hnot (hall b (List.mem_of_mem_head? hb))
  have hhead : ∀ b ∈ (n ++ 32 :: t).head?, ¬ isSpace b := by
    intro b' hb'
    have hne := hcanonical.ne_nil
    rw [List.head?_append_of_ne_nil n hne] at hb'
    exact ((isNick_iff n).mp hcanonical).2.front b' hb'
  have hstep := World.step_msg hw hutters hflood hnick hhead
  constructor
  · intro hsent hspace
    -- the sender has a connection and sees another packet
    obtain ⟨p, hp, -⟩ := hutters.heard
    obtain ⟨k, _, _, _, _, hk, _⟩ := World.messageOf_some env hp
    have hmail : ∀ y, w.mail (w.memberAt m).client y = [(k, y)] := by
      intro y
      rw [World.mail, (ClientsManager.findClientByConnection_spec hw hk).2]
      rfl
    have hlen := afterWord_append_space hcanonical hspace t
    cases hstep with
    | inl h =>
      obtain ⟨m3, -, -, hother⟩ := h
      rw [hsent, hmail, hmail] at hother
      have hwire := List.append_cancel_left hother
      simp only [List.cons_append, List.nil_append, List.cons.injEq, Prod.mk.injEq, true_and] at hwire
      rw [← World.privateWire_text hwire.1] at hlen
      omega
    | inr h =>
      obtain ⟨-, msg, hother⟩ := h
      rw [hsent, hmail, hmail] at hother
      have hwire := List.append_cancel_left hother
      simp [x, World.privateWire] at hwire
  · intro hspace
    have hword := hcanonical.not_space hspace
    rw [firstWord_append hword, afterWord_append hword ht,
      Room.findMemberByNick_eq (seated_run env es) hm2 hn hcanonical.ne_nil] at hstep
    cases hstep with
    | inl h =>
      obtain ⟨m3, hsame, -, hsent⟩ := h
      rw [← Option.some.inj hsame] at hsent
      exact hsent
    | inr h =>
      cases h.1 with
      | inl hnone => cases hnone
      | inr hbl => exact absurd hbl hblank

theorem run_msg_iff_guest :
    let w := run Sample.surroundings Sample.room
    let x := w.privateWire 7 ⟨0⟩ ⟨1⟩ (utf8 "hi")
    (w.step Sample.surroundings (Sample.sends 7 1 (Sample.line (Command.privateMessage.line (utf8 "foo hi"))))).sent =
        w.sent ++ (w.mail (w.memberAt ⟨0⟩).client x ++ w.mail (w.memberAt ⟨1⟩).client x) ∧
      w.mail (w.memberAt ⟨1⟩).client x = [(⟨2⟩, x)] := by
  intro w x
  have hutters : w.Utters (Sample.sends 7 1 (Sample.line (Command.privateMessage.line (utf8 "foo hi")))) ⟨0⟩
      (Command.privateMessage.line (utf8 "foo" ++ 32 :: utf8 "hi")) :=
    Sample.utters (by decide +kernel)
  refine ⟨?_, by decide +kernel⟩
  exact (run_msg_iff Sample.surroundings Sample.room _ ⟨0⟩ ⟨1⟩ (utf8 "foo") (utf8 "hi") hutters (by decide +kernel)
    (by decide +kernel) (by decide +kernel) (by decide +kernel) Sample.isNick_foo ⟨104, by decide, by decide⟩).mpr
    (by decide)

def Sample.namesakes : List Event :=
  Sample.room ++ [Sample.sends 7 2 (Sample.line (Command.nick.line (utf8 "a b"))),
    Sample.opens 8 3 99 Sample.mem_c, Sample.sends 9 3 (Sample.ofTarget 6),
    Sample.sends 10 3 (Sample.line (Command.nick.line (utf8 "a")))]

theorem Sample.isNick_a_b : IsNick (utf8 "a b") :=
  .of_bytes (by decide) (by decide) (by decide) (by decide) (by decide) (by decide)

/-- A whisper to the guest with the space in its nick goes to the other one. -/
theorem msg_fails_space :
    let w := run Sample.surroundings Sample.namesakes
    let e := Sample.sends 11 1 (Sample.line (Command.privateMessage.line (utf8 "a b" ++ 32 :: utf8 "hi")))
    let x := w.privateWire e.now ⟨0⟩ ⟨1⟩ (utf8 "hi")
    let y := w.privateWire e.now ⟨0⟩ ⟨2⟩ (utf8 "b hi")
    w.Utters e ⟨0⟩ (Command.privateMessage.line (utf8 "a b" ++ 32 :: utf8 "hi")) ∧ IsNick (utf8 "a b") ∧
      ¬ w.Floods e ⟨0⟩ ∧ (w.memberAt ⟨0⟩).hasNick ∧ ⟨1⟩ ∈ (w.roomAt (w.memberAt ⟨0⟩).room).members ∧
      (w.memberAt ⟨1⟩).nick = utf8 "a b" ∧ (w.memberAt ⟨2⟩).nick = utf8 "a" ∧
      (w.step Sample.surroundings e).sent =
        w.sent ++ (w.mail (w.memberAt ⟨0⟩).client y ++ w.mail (w.memberAt ⟨2⟩).client y) ∧
      (w.step Sample.surroundings e).sent ≠
        w.sent ++ (w.mail (w.memberAt ⟨0⟩).client x ++ w.mail (w.memberAt ⟨1⟩).client x) := by
  intro w e x y
  exact ⟨Sample.utters (by decide +kernel), Sample.isNick_a_b, by decide +kernel⟩

end WsChat
