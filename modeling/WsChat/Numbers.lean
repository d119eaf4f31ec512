import WsChat.Whispers

/-! Numbers as arguments: the digits at the front are read into 32 bits, and a larger number
becomes the largest one. -/
namespace WsChat
open Lib

/-- The number at the front of an argument, of any size. -/
def typedNumber (arg : Bytes) : Nat := digitsValue (arg.takeWhile isDigit)

/-- What a stream makes of a number. -/
def clampUid (n : Nat) : UInt32 := UInt32.ofNat (min n (2 ^ 32 - 1))

theorem clampUid_toNat (n : Nat) : (clampUid n).toNat = min n (2 ^ 32 - 1) := by
  rw [clampUid, UInt32.toNat_ofNat_of_lt']
  exact lt_of_le_of_lt (Nat.min_le_right _ _) (by decide)

theorem clampUid_of_lt {n : Nat} (h : n < 2 ^ 32) : (clampUid n).toNat = n := by
  rw [clampUid_toNat]
  omega

theorem clampUid_of_le {n : Nat} (h : 2 ^ 32 ≤ n) : clampUid n = 0xFFFFFFFF := by
  rw [clampUid, Nat.min_eq_right (by omega)]
  rfl

theorem not_isSpace_of_isDigit {b : UInt8} (hb : isDigit b) : ¬ isSpace b := by
  intro hs
  simp only [isDigit, isSpace, Bool.or_eq_true, Bool.and_eq_true, beq_iff_eq, decide_eq_true_eq,
    UInt8.le_iff_toNat_le, ← UInt8.toNat_inj, UInt8.reduceToNat] at hb hs
  omega

theorem dropWhile_of_digits {arg : Bytes} (harg : arg.takeWhile isDigit ≠ []) : arg.dropWhile isSpace = arg := by
  cases arg with
  | nil => rfl
  | cons b arg =>
    have hb : isDigit b := by
      by_contra hb
      exact harg (List.takeWhile_cons_of_neg hb)
    exact List.dropWhile_cons_of_neg (not_isSpace_of_isDigit hb)

theorem streamUInt_digits {ds : Bytes} (hds : ∀ b ∈ ds, isDigit b) : streamUInt ds = clampUid (digitsValue ds) := by
  have hall : ds.takeWhile isDigit = ds := List.takeWhile_eq_self_iff.mpr hds
  have hsigned : signedDigits ds = (false, ds) := by
    cases ds with
    | nil => rfl
    | cons b ds =>
      have hb : isDigit b := hds b List.mem_cons_self
      unfold signedDigits
      rw [List.dropWhile_cons_of_neg (not_isSpace_of_isDigit hb)]
      split
      · rename_i heq
        cases heq
        exact absurd hb (by decide)
      · rename_i heq
        cases heq
        exact absurd hb (by decide)
      · rw [hall]
  unfold streamUInt
  rw [hsigned]
  dsimp only
  by_cases hsmall : digitsValue ds < 2 ^ 32
  · rw [if_pos hsmall, clampUid, Nat.min_eq_left (by omega), signedValue, if_neg Bool.false_ne_true, UInt32.ofInt,
      Int.emod_eq_of_lt (Int.natCast_nonneg _) (by exact_mod_cast hsmall), Int.toNat_natCast]
  · rw [if_neg hsmall, clampUid, Nat.min_eq_right (by omega)]

section
variable {env : Env} {w w₁ : World} {e : Event} {m : MemberPtr} {arg : Bytes} {parser : RegexParser}

theorem RegexParser.next_int {p : RegexParser} (hp : p.nextInput = arg) (harg : arg.takeWhile isDigit ≠ []) :
    (p.next Rx.int).1 = true ∧ streamUInt (((p.next Rx.int).2.read 0).getD []) = clampUid (typedNumber arg) ∧
      (p.next Rx.int).2.nextInput = arg.dropWhile isDigit := by
  have hne : p.nextInput ≠ [] := by
    intro hnil
    rw [← hp, hnil] at harg
    exact harg rfl
  have hsearch := Regex.search_plus isDigit arg
  rw [if_neg harg] at hsearch
  rw [RegexParser.next_some hne (by rw [hp]; exact hsearch)]
  exact ⟨rfl, streamUInt_digits fun b hb => List.mem_takeWhile_imp hb, rfl⟩

theorem Command.withUid_eq (hat : parser.At arg) (harg : arg.takeWhile isDigit ≠ []) (act : UInt32 → World) :
    Command.withUid w m parser act = act (clampUid (typedNumber arg)) := by
  obtain ⟨hfound, huid, -⟩ := RegexParser.next_int hat.next harg
  unfold Command.withUid
  split
  · rename_i p hp
    rw [← huid, hp]
  · rename_i p hp
    rw [hp] at hfound
    cases hfound

def Command.uids (cmd : Command) (rm : Room) : IterSet UInt32 :=
  match cmd with
  | .addModer | .delModer => rm.moderators
  | _ => rm.bannedUids

theorem Command.uids_banUid (rm : Room) : Command.banUid.uids rm = rm.bannedUids := rfl

/-- The command would change the set with a uid: the member may give it, no limit stands
against it, and the set is not yet as it asks. -/
def Command.ActsOn (cmd : Command) (w : World) (m : MemberPtr) (uid : UInt32) : Prop :=
  let rm := w.roomAt (w.memberAt m).room
  match cmd with
  | .banUid => Member.isModer w m ∧ Member.overLimit w m rm.bannedUids.size 100 = false ∧ uid ∉ rm.bannedUids
  | .unbanUid => Member.isModer w m ∧ uid ∈ rm.bannedUids
  | .addModer => Member.isOwner w m ∧ Member.overLimit w m rm.moderators.size 10 = false ∧ uid ≠ 0 ∧
      uid ∉ rm.moderators
  | .delModer => Member.isOwner w m ∧ uid ∈ rm.moderators
  | _ => False

/-- One element enters or leaves a set of the room. -/
def World.Toggles {α : Type*} [DecidableEq α] (set : Room → IterSet α) (w w' : World) (r : RoomPtr) (a : α) : Prop :=
  ∀ x, x ∈ set (w'.roomAt r) ↔ (x ≠ a ∧ x ∈ set (w.roomAt r)) ∨ (x = a ∧ a ∉ set (w.roomAt r))

def uidCommands : List Command := [.banUid, .unbanUid, .addModer, .delModer]

theorem Command.update_roomAt_true (f : Room → Room) (done same : Bytes) :
    (Command.update w m true f done same).roomAt (w.memberAt m).room = f (w.roomAt (w.memberAt m).room) := by
  rw [Command.update, if_pos rfl, Member.reply_roomAt]
  simp

theorem Command.update_roomAt_false (f : Room → Room) (done same : Bytes) :
    (Command.update w m false f done same).roomAt = w.roomAt := by
  rw [Command.update, if_neg Bool.false_ne_true, Member.reply_roomAt]

theorem Command.update_spec {α : Type*} [DecidableEq α] {set : Room → IterSet α} {a : α} {changes : Bool}
    {f : Room → Room} {done same : Bytes} {acts : Prop} (hacts : acts ↔ changes = true)
    (hf : changes = true → ∀ x, x ∈ set (f (w.roomAt (w.memberAt m).room)) ↔
      (x ≠ a ∧ x ∈ set (w.roomAt (w.memberAt m).room)) ∨ (x = a ∧ a ∉ set (w.roomAt (w.memberAt m).room))) :
    (acts → World.Toggles set w (Command.update w m changes f done same) (w.memberAt m).room a) ∧
      (¬ acts → (Command.update w m changes f done same).roomAt = w.roomAt) := by
  rw [hacts]
  cases changes with
  | true =>
    refine ⟨fun h x => ?_, fun h => absurd rfl h⟩
    rw [Command.update_roomAt_true]
    exact hf h x
  | false => exact ⟨fun h => absurd h Bool.false_ne_true, fun _ => Command.update_roomAt_false _ _ _⟩

theorem toggle_insert {α : Type*} [DecidableEq α] {s : IterSet α} {a : α} (h : a ∉ s) (x : α) :
    x ∈ s.insert a ↔ (x ≠ a ∧ x ∈ s) ∨ (x = a ∧ a ∉ s) := by
  rw [IterSet.mem_insert]
  by_cases hx : x = a
  · simp [hx, h]
  · simp [hx]

theorem toggle_erase {α : Type*} [DecidableEq α] {s : IterSet α} {a : α} (h : a ∈ s) (x : α) :
    x ∈ s.erase a ↔ (x ≠ a ∧ x ∈ s) ∨ (x = a ∧ a ∉ s) := by
  rw [IterSet.mem_erase]
  simp [h]

theorem Command.process_uid (env : Env) {cmd : Command} (hcmd : cmd ∈ uidCommands) (hgranted : cmd.Granted w m)
    (hat : parser.At arg) (harg : arg.takeWhile isDigit ≠ []) :
    (cmd.ActsOn w m (clampUid (typedNumber arg)) →
      World.Toggles cmd.uids w (cmd.process env w m parser) (w.memberAt m).room (clampUid (typedNumber arg))) ∧
    (¬ cmd.ActsOn w m (clampUid (typedNumber arg)) → (cmd.process env w m parser).roomAt = w.roomAt) := by
  generalize huid : clampUid (typedNumber arg) = uid
  cases cmd with
  | banUid =>
    have hmoder : Member.isModer w m := hgranted.rights.1 (by decide)
    change (_ → World.Toggles _ _ (CommandBanUid.process w m parser) _ _) ∧
      (_ → (CommandBanUid.process w m parser).roomAt = _)
    unfold CommandBanUid.process Command.ActsOn
    dsimp only
    rw [Command.withUid_eq hat harg, huid]
    by_cases hlimit : Member.overLimit w m (w.roomAt (w.memberAt m).room).bannedUids.size 100
    · rw [if_pos hlimit]
      exact ⟨fun h => absurd (h.2.1.symm.trans hlimit) Bool.false_ne_true, fun _ => Member.reply_roomAt _ _ _⟩
    · rw [if_neg hlimit]
      exact Command.update_spec (by simp [hmoder, hlimit]) fun h => toggle_insert (of_decide_eq_true h)
  | unbanUid =>
    have hmoder : Member.isModer w m := hgranted.rights.1 (by decide)
    change (_ → World.Toggles _ _ (CommandUnbanUid.process w m parser) _ _) ∧
      (_ → (CommandUnbanUid.process w m parser).roomAt = _)
    unfold CommandUnbanUid.process Command.ActsOn
    rw [Command.withUid_eq hat harg, huid]
    exact Command.update_spec (by simp [hmoder]) fun h => toggle_erase (of_decide_eq_true h)
  | addModer =>
    have howner : Member.isOwner w m := hgranted.rights.2.1 (by decide)
    change (_ → World.Toggles _ _ (CommandAddModer.process w m parser) _ _) ∧
      (_ → (CommandAddModer.process w m parser).roomAt = _)
    unfold CommandAddModer.process Command.ActsOn
    dsimp only
    rw [Command.withUid_eq hat harg, huid]
    by_cases hlimit : Member.overLimit w m (w.roomAt (w.memberAt m).room).moderators.size 10
    · rw [if_pos hlimit]
      exact ⟨fun h => absurd (h.2.1.symm.trans hlimit) Bool.false_ne_true, fun _ => Member.reply_roomAt _ _ _⟩
    · rw [if_neg hlimit]
      by_cases hguest : uid = 0
      · rw [if_pos hguest]
        exact ⟨fun h => absurd hguest h.2.2.1, fun _ => Member.reply_roomAt _ _ _⟩
      · rw [if_neg hguest]
        exact Command.update_spec (by simp [howner, hlimit, hguest]) fun h => toggle_insert (of_decide_eq_true h)
  | delModer =>
    have howner : Member.isOwner w m := hgranted.rights.2.1 (by decide)
    change (_ → World.Toggles _ _ (CommandDelModer.process w m parser) _ _) ∧
      (_ → (CommandDelModer.process w m parser).roomAt = _)
    unfold CommandDelModer.process Command.ActsOn
    rw [Command.withUid_eq hat harg, huid]
    exact Command.update_spec (by simp [howner]) fun h => toggle_erase (of_decide_eq_true h)
  | _ => exact absurd hcmd (by simp [uidCommands])

theorem Command.ActsOn.granted {cmd : Command} {uid : UInt32} (h : cmd.ActsOn w m uid) : cmd.Granted w m := by
  unfold Command.ActsOn at h
  split at h
  · simp [Command.Granted, cmdModer, h.1]
  · simp [Command.Granted, cmdModer, h.1]
  · simp [Command.Granted, cmdOwner, h.1]
  · simp [Command.Granted, cmdOwner, h.1]
  · exact h.elim

theorem Command.actsOn_calm (hcalm : Calm w w₁) (cmd : Command) (uid : UInt32) :
    cmd.ActsOn w₁ m uid ↔ cmd.ActsOn w m uid := by
  unfold Command.ActsOn
  simp only [hcalm.memberAt, hcalm.roomAt, hcalm.isModer m, hcalm.isOwner m, Member.overLimit_calm hcalm]

theorem World.step_uid {cmd : Command} (hcmd : cmd ∈ uidCommands) (hw : WF env w) (h : w.Utters e m (cmd.line arg))
    (hflood : ¬ w.Floods e m) (harg : arg.takeWhile isDigit ≠ []) :
    (cmd.ActsOn w m (clampUid (typedNumber arg)) →
      World.Toggles cmd.uids w (w.step env e) (w.memberAt m).room (clampUid (typedNumber arg))) ∧
    (¬ cmd.ActsOn w m (clampUid (typedNumber arg)) → (w.step env e).roomAt = w.roomAt) := by
  obtain ⟨w₁, parser, hcalm, -, hat, hstep⟩ := World.step_command hw h hflood
  rw [dropWhile_of_digits harg] at hat
  rw [hstep]
  by_cases hgranted : cmd.Granted w m
  · rw [if_pos hgranted]
    have hprocess := Command.process_uid env hcmd ((Command.granted_calm hcalm cmd m).mpr hgranted) hat harg
    rw [Command.actsOn_calm hcalm, hcalm.memberAt, hcalm.roomAt] at hprocess
    refine ⟨fun hacts x => ?_, hprocess.2⟩
    rw [hprocess.1 hacts x, hcalm.roomAt]
  · rw [if_neg hgranted]
    refine ⟨fun hacts => absurd hacts.granted hgranted, fun _ => ?_⟩
    rw [Member.reply_roomAt, hcalm.roomAt]

theorem CommandPrivateMessageById.process_eq (hat : parser.At arg) (harg : arg.takeWhile isDigit ≠ []) :
    CommandPrivateMessageById.process w m parser = Member.whisper w m
      ((Room.findMemberById w (w.memberAt m).room (clampUid (typedNumber arg))).filter fun m2 =>
        (w.memberAt m2).hasNick) (afterWord (arg.dropWhile isDigit)) := by
  obtain ⟨hfound, huid, hnext⟩ := RegexParser.next_int hat.next harg
  obtain ⟨-, hrest⟩ := RegexParser.next_toSpace hnext
  unfold CommandPrivateMessageById.process
  dsimp only
  rw [hfound, if_pos rfl, huid, CommandPrivateMessage.text_eq hrest (separated_dropWhile _)]
  rfl

/-- What goes out are answers to the member, or copies of a private message of it to a member
with the number. -/
def World.WhispersTo (w : World) (now : Int) (m : MemberPtr) (t : Bytes) (number : Nat)
    (out : List (ConnectionPtr × Wire)) : Prop :=
  ∀ x ∈ out, (∃ msg : PacketSystem, x ∈ w.mail (w.memberAt m).client (.packet (.system msg))) ∨
    ∃ m2 ∈ (w.roomAt (w.memberAt m).room).members, (w.memberAt m2).id.toNat = number ∧
      x ∈ w.mail (w.memberAt m).client (w.privateWire now m m2 t) ++
        w.mail (w.memberAt m2).client (w.privateWire now m m2 t)

theorem World.step_umsg (hw : WF env w) (h : w.Utters e m (Command.privateMessageById.line arg))
    (hflood : ¬ w.Floods e m) (harg : arg.takeWhile isDigit ≠ []) :
    (∃ m2, (w.memberAt m).hasNick ∧
      Room.findMemberById w (w.memberAt m).room (clampUid (typedNumber arg)) = some m2 ∧ (w.memberAt m2).hasNick ∧
      ¬ Rx.blank.fullMatch (afterWord (arg.dropWhile isDigit)) ∧ (w.step env e).sent = w.sent ++
        (w.mail (w.memberAt m).client (w.privateWire e.now m m2 (afterWord (arg.dropWhile isDigit))) ++
          w.mail (w.memberAt m2).client (w.privateWire e.now m m2 (afterWord (arg.dropWhile isDigit))))) ∨
    ((¬ (w.memberAt m).hasNick ∨ (∀ m2, Room.findMemberById w (w.memberAt m).room (clampUid (typedNumber arg)) = some m2 →
        ¬ (w.memberAt m2).hasNick) ∨ Rx.blank.fullMatch (afterWord (arg.dropWhile isDigit))) ∧
      ∃ msg : PacketSystem, (w.step env e).sent = w.sent ++ w.mail (w.memberAt m).client (.packet (.system msg))) := by
  obtain ⟨w₁, parser, hcalm, hnow, hat, hstep⟩ := World.step_command hw h hflood
  rw [dropWhile_of_digits harg] at hat
  by_cases hnick : (w.memberAt m).hasNick
  · have hgranted : Command.privateMessageById.Granted w m := by
      simp [Command.Granted, cmdUser, hnick]
    rw [if_pos hgranted] at hstep
    rw [show w.step env e = CommandPrivateMessageById.process w₁ m parser from hstep,
      CommandPrivateMessageById.process_eq hat harg]
    have hfind : Room.findMemberById w₁ (w₁.memberAt m).room (clampUid (typedNumber arg)) =
        Room.findMemberById w (w.memberAt m).room (clampUid (typedNumber arg)) := by
      simp only [Room.findMemberById, hcalm.memberAt, hcalm.roomAt]
    rw [hfind, hcalm.memberAt]
    cases Member.whisper_sent (m := m) hcalm hnow
        ((Room.findMemberById w (w.memberAt m).room (clampUid (typedNumber arg))).filter fun m2 =>
          (w.memberAt m2).hasNick) (afterWord (arg.dropWhile isDigit)) with
    | inl h =>
      obtain ⟨m2, hdest, hblank, hsent⟩ := h
      obtain ⟨hfound, hnick2⟩ := Option.filter_eq_some_iff.mp hdest
      exact .inl ⟨m2, hnick, hfound, hnick2, hblank, hsent⟩
    | inr h =>
      obtain ⟨hnone, hsent⟩ := h
      refine .inr ⟨.inr (hnone.imp_left fun hfilter m2 hfound => ?_), hsent⟩
      rw [hfound, Option.filter_eq_none_iff] at hfilter
      exact hfilter m2 rfl
  · have hgranted : ¬ Command.privateMessageById.Granted w m := fun h => hnick (h.rights.2.2 rfl)
    rw [if_neg hgranted] at hstep
    rw [hstep, Member.reply_eq, World.emit_sent, hcalm.sent, hcalm.mail, hcalm.memberAt]
    exact .inr ⟨.inl hnick, _, rfl⟩

theorem World.uid_iff {cmd : Command} (hcmd : cmd ∈ uidCommands) (hw : WF env w) (h : w.Utters e m (cmd.line arg))
    (harg : arg.takeWhile isDigit ≠ []) :
    (∀ x : UInt32, x.toNat ≠ typedNumber arg →
      (x ∈ cmd.uids ((w.step env e).roomAt (w.memberAt m).room) ↔ x ∈ cmd.uids (w.roomAt (w.memberAt m).room))) ↔
    (typedNumber arg < 2 ^ 32 ∨ w.Floods e m ∨ ¬ cmd.ActsOn w m 0xFFFFFFFF) := by
  by_cases hflood : w.Floods e m
  · rw [(World.step_flood env h hflood).1]
    exact ⟨fun _ => .inr (.inl hflood), fun _ _ _ => Iff.rfl⟩
  obtain ⟨hacts, hidle⟩ := World.step_uid hcmd hw h hflood harg
  by_cases hfits : typedNumber arg < 2 ^ 32
  · refine ⟨fun _ => .inl hfits, fun _ x hx => ?_⟩
    by_cases hact : cmd.ActsOn w m (clampUid (typedNumber arg))
    · have hne : x ≠ clampUid (typedNumber arg) := by
        intro he
        exact hx (he ▸ clampUid_of_lt hfits)
      rw [hacts hact x]
      simp [hne]
    · rw [hidle hact]
  · rw [clampUid_of_le (not_lt.mp hfits)] at hacts hidle
    constructor
    · intro hsame
      by_contra hcond
      have hact : cmd.ActsOn w m 0xFFFFFFFF := by
        by_contra hact
        exact hcond (.inr (.inr hact))
      have hmax : (0xFFFFFFFF : UInt32).toNat ≠ typedNumber arg := by
        have hval : (0xFFFFFFFF : UInt32).toNat = 2 ^ 32 - 1 := rfl
        omega
      have htoggle := hacts hact 0xFFFFFFFF
      rw [hsame 0xFFFFFFFF hmax] at htoggle
      simp only [ne_eq, not_true_eq_false, false_and, true_and, false_or] at htoggle
      exact iff_not_self htoggle
    · intro hcond x _
      cases hcond with
      | inl hsmall => exact absurd hsmall hfits
      | inr hcond => rw [hidle (hcond.resolve_left hflood)]

theorem Room.findMemberById_eq (hs : Seated w) {r : RoomPtr} {m2 : MemberPtr} {id : UInt32}
    (hm2 : m2 ∈ (w.roomAt r).members) (hid : (w.memberAt m2).id = id) : Room.findMemberById w r id = some m2 :=
  IterSet.find?_unique hm2 (by simp [hid])
    (fun m hm hfound => hs.ids r m hm m2 hm2 ((beq_iff_eq.mp hfound).trans hid.symm)) (List.Perm.refl _)

theorem World.umsg_iff (hw : WF env w) (hs : Seated w) (h₀ : w.Utters e m (Command.privateMessageById.line arg))
    (harg : arg.takeWhile isDigit ≠ []) :
    (∃ out, (w.step env e).sent = w.sent ++ out ∧
      w.WhispersTo e.now m (afterWord (arg.dropWhile isDigit)) (typedNumber arg) out) ↔
    (typedNumber arg < 2 ^ 32 ∨ w.Floods e m ∨ ¬ (w.memberAt m).hasNick ∨
      Rx.blank.fullMatch (afterWord (arg.dropWhile isDigit)) ∨
      ∀ m2 ∈ (w.roomAt (w.memberAt m).room).members, (w.memberAt m2).id = 0xFFFFFFFF → ¬ (w.memberAt m2).hasNick) := by
  have hanswered : ∀ msg : PacketSystem, (w.step env e).sent =
      w.sent ++ w.mail (w.memberAt m).client (.packet (.system msg)) → ∃ out, (w.step env e).sent = w.sent ++ out ∧
        w.WhispersTo e.now m (afterWord (arg.dropWhile isDigit)) (typedNumber arg) out := by
    intro msg hsent
    exact ⟨_, hsent, fun x hx => .inl ⟨msg, hx⟩⟩
  by_cases hflood : w.Floods e m
  · obtain ⟨-, -, msg, hsent⟩ := World.step_flood env h₀ hflood
    exact ⟨fun _ => .inr (.inl hflood), fun _ => hanswered msg hsent⟩
  cases World.step_umsg hw h₀ hflood harg with
  | inr h =>
    obtain ⟨hwhy, msg, hsent⟩ := h
    refine ⟨fun _ => ?_, fun _ => hanswered msg hsent⟩
    by_cases hfits : typedNumber arg < 2 ^ 32
    · exact .inl hfits
    rw [clampUid_of_le (not_lt.mp hfits)] at hwhy
    refine .inr (.inr (hwhy.imp_right fun hwhy => hwhy.symm.imp_right fun hnone m2 hm2 hid => ?_))
    exact hnone m2 (Room.findMemberById_eq hs hm2 hid)
  | inl h =>
    obtain ⟨m2, hnick, hfound, hnick2, hblank, hsent⟩ := h
    have hm2 : m2 ∈ (w.roomAt (w.memberAt m).room).members := List.mem_of_find?_eq_some hfound
    have hid : (w.memberAt m2).id = clampUid (typedNumber arg) := by simpa using List.find?_some hfound
    constructor
    · intro hout
      -- the copy of the sender goes to somebody whose id is the number
      obtain ⟨out, hsame, hwhispers⟩ := hout
      obtain ⟨p, hp, -⟩ := h₀.heard
      obtain ⟨k, _, _, _, _, hk, _⟩ := World.messageOf_some env hp
      have hmail : ∀ y, w.mail (w.memberAt m).client y = [(k, y)] := by
        intro y
        rw [World.mail, (ClientsManager.findClientByConnection_spec hw hk).2]
        rfl
      rw [hsent, hmail] at hsame
      have hout := List.append_cancel_left hsame
      have hin := hwhispers _ (hout ▸ List.mem_append_left _ (List.mem_singleton_self _))
      cases hin with
      | inl hsystem =>
        obtain ⟨msg, hsystem⟩ := hsystem
        rw [hmail, List.mem_singleton] at hsystem
        cases congrArg Prod.snd hsystem
      | inr hsome =>
        obtain ⟨m3, -, hid3, -⟩ := hsome
        exact .inl (hid3 ▸ UInt32.toNat_lt _)
    · intro hcond
      have hfits : typedNumber arg < 2 ^ 32 := by
        by_contra hlarge
        rw [clampUid_of_le (not_lt.mp hlarge)] at hid
        have hrest := ((hcond.resolve_left hlarge).resolve_left hflood).resolve_left (not_not.mpr hnick)
        exact (hrest.resolve_left hblank) m2 hm2 hid hnick2
      refine ⟨_, hsent, fun x hx => .inr ⟨m2, hm2, ?_, hx⟩⟩
      rw [hid, clampUid_of_lt hfits]

end

/-- The commands with a number act on the number that was typed, if it fits into 32 bits, and
otherwise only in that they do not act on the largest number. -/
theorem run_numbers_iff (env : Env) (es : List Event) (e : Event) (m : MemberPtr) (arg : Bytes) :
    let w := run env es
    let w' := w.step env e
    let r := (w.memberAt m).room
    let number := typedNumber arg
    let text := afterWord (arg.dropWhile isDigit)
    arg.takeWhile isDigit ≠ [] →
      (∀ cmd ∈ uidCommands, w.Utters e m (cmd.line arg) →
        ((∀ x : UInt32, x.toNat ≠ number → (x ∈ cmd.uids (w'.roomAt r) ↔ x ∈ cmd.uids (w.roomAt r))) ↔
          (number < 2 ^ 32 ∨ w.Floods e m ∨ ¬ cmd.ActsOn w m 0xFFFFFFFF))) ∧
      (w.Utters e m (Command.privateMessageById.line arg) →
        ((∃ out, w'.sent = w.sent ++ out ∧ w.WhispersTo e.now m text number out) ↔
          (number < 2 ^ 32 ∨ w.Floods e m ∨ ¬ (w.memberAt m).hasNick ∨ Rx.blank.fullMatch text ∨
            ∀ m2 ∈ (w.roomAt r).members, (w.memberAt m2).id = 0xFFFFFFFF → ¬ (w.memberAt m2).hasNick))) := by
  intro w w' r number text harg
  have hw : WF env w := wf_run env es
  constructor
  · intro cmd hcmd hutters
    exact World.uid_iff hcmd hw hutters harg
  · intro hutters
    exact World.umsg_iff hw (seated_run env es) hutters harg

theorem run_numbers_iff_ban :
    let w := run Sample.surroundings Sample.room
    let r := (w.memberAt ⟨0⟩).room
    let w' := w.step Sample.surroundings (Sample.sends 7 1 (Sample.line (Command.banUid.line (utf8 "5"))))
    5 ∈ (w'.roomAt r).bannedUids ∧ ∀ x : UInt32, x.toNat ≠ typedNumber (utf8 "5") →
      (x ∈ Command.banUid.uids (w'.roomAt r) ↔ x ∈ Command.banUid.uids (w.roomAt r)) := by
  intro w r w'
  have hutters : w.Utters (Sample.sends 7 1 (Sample.line (Command.banUid.line (utf8 "5")))) ⟨0⟩
      (Command.banUid.line (utf8 "5")) :=
    Sample.utters (by decide +kernel)
  have hfits : typedNumber (utf8 "5") < 2 ^ 32 := by decide
  have hiff := (run_numbers_iff Sample.surroundings Sample.room _ ⟨0⟩ (utf8 "5") (by decide)).1
    .banUid (by decide) hutters
  exact ⟨by decide +kernel, hiff.mpr (.inl hfits)⟩

/-- The owner types a number of 33 bits and bans the account with the largest number of 32. -/
theorem numbers_fail_overflow :
    let w := run Sample.surroundings Sample.room
    let r := (w.memberAt ⟨0⟩).room
    let arg := utf8 "4294967296"
    let e := Sample.sends 7 1 (Sample.line (Command.banUid.line arg))
    let w' := w.step Sample.surroundings e
    w.Utters e ⟨0⟩ (Command.banUid.line arg) ∧ arg.takeWhile isDigit ≠ [] ∧ typedNumber arg = 2 ^ 32 ∧
      0xFFFFFFFF ∉ (w.roomAt r).bannedUids ∧ 0xFFFFFFFF ∈ (w'.roomAt r).bannedUids ∧
      ¬ ∀ x : UInt32, x.toNat ≠ typedNumber arg →
        (x ∈ Command.banUid.uids (w'.roomAt r) ↔ x ∈ Command.banUid.uids (w.roomAt r)) := by
  intro w r arg e w'
  have hutters : w.Utters e ⟨0⟩ (Command.banUid.line arg) :=
    Sample.utters (by decide +kernel)
  have hbefore : 0xFFFFFFFF ∉ (w.roomAt r).bannedUids := by decide +kernel
  have hafter : 0xFFFFFFFF ∈ (w'.roomAt r).bannedUids := by decide +kernel
  have hnumber : (0xFFFFFFFF : UInt32).toNat ≠ typedNumber arg := by decide
  refine ⟨hutters, by decide, by decide, hbefore, hafter, ?_⟩
  intro hall
  have hsame := hall 0xFFFFFFFF hnumber
  rw [Command.uids_banUid, Command.uids_banUid] at hsame
  exact hbefore (hsame.mp hafter)

end WsChat
