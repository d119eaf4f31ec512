import WsChat.Oblivious
import WsChat.Numbers
import WsChat.Feeds
import WsChat.Departures

/-! Private messages: what one of them does, and that nobody else can tell from what he gets what it was
about. -/
namespace WsChat
open Lib

inductive Addressee where
  | nick (n : Bytes)
  | id (i : UInt32)
  deriving DecidableEq

/-- The member with a nick that has this nick or this id. -/
def Addressee.Names (a : Addressee) (w : World) (m2 : MemberPtr) : Prop :=
  (w.memberAt m2).hasNick ∧
    match a with
    | nick n => (w.memberAt m2).nick = n
    | id i => (w.memberAt m2).id = i

instance (a : Addressee) (w : World) (m2 : MemberPtr) : Decidable (a.Names w m2) := by
  unfold Addressee.Names
  cases a <;> exact inferInstance

def Addressee.find (a : Addressee) (w : World) (r : RoomPtr) : Option MemberPtr :=
  match a with
  | nick n => Room.findMemberByNick w r n
  | id i => (Room.findMemberById w r i).filter fun m2 => (w.memberAt m2).hasNick

/-- The addressee and the text of a `/msg` or `/umsg` line. -/
def readPrivate (line : Bytes) : Option (Addressee × Bytes) :=
  match line with
  | 47 :: s =>
    let arg := afterWord s
    if firstWord s = Command.privateMessage.getName then some (.nick (firstWord arg), afterWord arg)
    else if firstWord s = Command.privateMessageById.getName then
      some (.id (clampUid (typedNumber arg)), afterWord (arg.dropWhile isDigit))
    else none
  | _ => none

section
variable {env : Env} {w w₁ : World} {e : Event} {m m2 m3 : MemberPtr} {r : RoomPtr} {c : ClientPtr} {k : ConnectionPtr}
  {a : Addressee} {line t arg : Bytes} {parser : RegexParser}

theorem RegexParser.next_int_none {p : RegexParser} (hp : p.nextInput = arg) (harg : arg.takeWhile isDigit = []) :
    (p.next Rx.int).1 = false ∧ (p.next Rx.int).2.nextInput = arg := by
  by_cases hne : p.nextInput = []
  · have hnext : p.next Rx.int = (false, p) := if_pos hne
    rw [hnext]
    exact ⟨rfl, hp⟩
  · have hsearch := Regex.search_plus isDigit arg
    rw [if_pos harg] at hsearch
    rw [RegexParser.next_none hne (by rw [hp]; exact hsearch)]
    exact ⟨rfl, hp⟩

theorem CommandPrivateMessageById.process_find (hat : parser.At arg) :
    CommandPrivateMessageById.process w m parser = Member.whisper w m
      ((Addressee.id (clampUid (typedNumber arg))).find w (w.memberAt m).room) (afterWord (arg.dropWhile isDigit)) := by
  by_cases harg : arg.takeWhile isDigit = []
  · obtain ⟨hfound, hnext⟩ := RegexParser.next_int_none hat.next harg
    obtain ⟨-, hrest⟩ := RegexParser.next_toSpace hnext
    have hnumber : typedNumber arg = 0 := by
      rw [typedNumber, harg]
      rfl
    have hdrop : arg.dropWhile isDigit = arg := by
      have happ := List.takeWhile_append_dropWhile (p := isDigit) (l := arg)
      rwa [harg, List.nil_append] at happ
    unfold CommandPrivateMessageById.process
    dsimp only
    rw [hfound, if_neg Bool.false_ne_true, hnumber, hdrop, CommandPrivateMessage.text_eq hrest (separated_dropWhile _)]
    rfl
  · exact CommandPrivateMessageById.process_eq hat harg

theorem readPrivate_some (h : readPrivate line = some (a, t)) :
    ∃ s, line = 47 :: s ∧
      ((firstWord s = Command.privateMessage.getName ∧ a = .nick (firstWord (afterWord s)) ∧
          t = afterWord (afterWord s)) ∨
        (firstWord s = Command.privateMessageById.getName ∧ a = .id (clampUid (typedNumber (afterWord s))) ∧
          t = afterWord ((afterWord s).dropWhile isDigit))) := by
  unfold readPrivate at h
  split at h
  · rename_i s
    refine ⟨s, rfl, ?_⟩
    dsimp only at h
    by_cases hmsg : firstWord s = Command.privateMessage.getName
    · rw [if_pos hmsg] at h
      cases h
      exact .inl ⟨hmsg, rfl, rfl⟩
    · by_cases humsg : firstWord s = Command.privateMessageById.getName
      · rw [if_neg hmsg, if_pos humsg] at h
        cases h
        exact .inr ⟨humsg, rfl, rfl⟩
      · rw [if_neg hmsg, if_neg humsg] at h
        cases h
  · cases h

theorem Command.granted_privately {cmd : Command} (hcmd : cmd = .privateMessage ∨ cmd = .privateMessageById) :
    cmd.Granted w m ↔ (w.memberAt m).hasNick := by
  rcases hcmd with rfl | rfl
  · simp [Command.Granted, cmdAdmin, cmdOwner, cmdModer, cmdUser, cmdAuthUser, cmdAll]
  · simp [Command.Granted, cmdAdmin, cmdOwner, cmdModer, cmdUser, cmdAuthUser, cmdAll]

theorem PacketMessage.processCommand_private (env : Env) (w : World) (m : MemberPtr) (r : RoomPtr)
    (h : readPrivate line = some (a, t)) :
    PacketMessage.processCommand env w m r line =
      some (if (w.memberAt m).hasNick then Member.whisper w m (a.find w (w.memberAt m).room) t
        else PacketMessage.badcmd w m r) := by
  obtain ⟨s, rfl, hread⟩ := readPrivate_some h
  have hcut : s = firstWord s ++ s.dropWhile (!isSpace ·) := List.takeWhile_append_dropWhile.symm
  have hsep : Separated (s.dropWhile (!isSpace ·)) := separated_dropWhile s
  cases hread with
  | inl hmsg =>
    obtain ⟨hword, rfl, rfl⟩ := hmsg
    obtain ⟨parser, hat, hline⟩ := PacketMessage.processCommand_line env w m r .privateMessage hsep
    rw [← hword, ← hcut] at hline
    rw [hline]
    refine congrArg some (if_congr (Command.granted_privately (.inl rfl)) ?_ rfl)
    exact CommandPrivateMessage.process_eq hat
  | inr humsg =>
    obtain ⟨hword, rfl, rfl⟩ := humsg
    obtain ⟨parser, hat, hline⟩ := PacketMessage.processCommand_line env w m r .privateMessageById hsep
    rw [← hword, ← hcut] at hline
    rw [hline]
    refine congrArg some (if_congr (Command.granted_privately (.inr rfl)) ?_ rfl)
    exact CommandPrivateMessageById.process_find hat

theorem Addressee.find_calm {w₀ : World} (h : Calm w₀ w) (a : Addressee) (r : RoomPtr) : a.find w r = a.find w₀ r := by
  unfold Addressee.find Room.findMemberByNick Room.findMemberById
  rw [h.memberAt, h.roomAt]

theorem Addressee.Names.unique (hs : Seated w) (hm2 : m2 ∈ (w.roomAt r).members) (hm3 : m3 ∈ (w.roomAt r).members)
    (h₂ : a.Names w m2) (h₃ : a.Names w m3) : m2 = m3 := by
  obtain ⟨hnick, hname₂⟩ := h₂
  obtain ⟨-, hname₃⟩ := h₃
  cases a with
  | nick n =>
    have hne : (w.memberAt m2).nick ≠ [] := by simpa [Member.hasNick] using hnick
    exact hs.nicks r m2 hm2 m3 hm3 (Eq.trans hname₂ (Eq.symm hname₃)) hne
  | id i => exact hs.ids r m2 hm2 m3 hm3 (Eq.trans hname₂ (Eq.symm hname₃))

theorem Addressee.find_iff (hs : Seated w) : a.find w r = some m2 ↔ m2 ∈ (w.roomAt r).members ∧ a.Names w m2 := by
  constructor
  · intro h
    cases a with
    | nick n =>
      have hfound := List.find?_some h
      simp only [Bool.and_eq_true, beq_iff_eq] at hfound
      exact ⟨List.mem_of_find?_eq_some h, hfound⟩
    | id i =>
      obtain ⟨hfound, hnick⟩ := Option.filter_eq_some_iff.mp h
      exact ⟨List.mem_of_find?_eq_some hfound, hnick, by simpa using List.find?_some hfound⟩
  · intro h
    obtain ⟨hm2, hnick, hname⟩ := h
    cases a with
    | nick n =>
      have hname : (w.memberAt m2).nick = n := hname
      exact Room.findMemberByNick_eq hs hm2 hname (by simpa [Member.hasNick, hname] using hnick)
    | id i => exact Option.filter_eq_some_iff.mpr ⟨Room.findMemberById_eq hs hm2 hname, hnick⟩

theorem Addressee.find_none (hs : Seated w) : a.find w r = none ↔ ∀ m2 ∈ (w.roomAt r).members, ¬ a.Names w m2 := by
  rw [Option.eq_none_iff_forall_ne_some]
  constructor
  · intro h m2 hm2 hnames
    exact h m2 ((Addressee.find_iff hs).mpr ⟨hm2, hnames⟩)
  · intro h m2 hfound
    obtain ⟨hm2, hnames⟩ := (Addressee.find_iff hs).mp hfound
    exact h m2 hm2 hnames

/-- The world at a later moment, in which a client has other flood counters and another time of its last packet,
and in which more was sent. -/
def World.counted (w : World) (now : Int) (c : ClientPtr) (heard started count : Int)
    (out : List (ConnectionPtr × Wire)) : World :=
  { w with
    now := now
    clientAt := Function.update w.clientAt c { w.clientAt c with
      lastPacketTime := heard, lastMessageTime := started, messageCounter := count }
    sent := w.sent ++ out }

theorem World.counted_emit (now : Int) (heard started count : Int) (out more : List (ConnectionPtr × Wire)) :
    (w.counted now c heard started count out).emit more = w.counted now c heard started count (out ++ more) := by
  unfold World.counted World.emit
  rw [List.append_assoc]

theorem World.reset_counted (w : World) (now : Int) (c : ClientPtr) :
    ∃ started count, PacketMessage.resetFlood (w.heard now c) c = w.counted now c now started count [] := by
  have hheard : ∀ f : Client → Client, World.modifyClient (w.heard now c) c f =
      { w with now := now, clientAt := Function.update w.clientAt c (f { w.clientAt c with lastPacketTime := now }) } := by
    intro f
    simp [World.heard, World.modifyClient]
  unfold PacketMessage.resetFlood
  by_cases hreset : 1 < (w.heard now c).now - ((w.heard now c).clientAt c).lastMessageTime
  · refine ⟨now, 0, ?_⟩
    rw [if_pos hreset, hheard, World.counted, List.append_nil]
    rfl
  · refine ⟨(w.clientAt c).lastMessageTime, (w.clientAt c).messageCounter, ?_⟩
    rw [if_neg hreset, World.counted, List.append_nil]
    rfl

theorem World.accepted_counted (w : World) (now : Int) (c : ClientPtr) :
    ∃ started count, w.accepted now c = w.counted now c now started count [] := by
  obtain ⟨started, count, hreset⟩ := w.reset_counted now c
  refine ⟨started, count + 1, ?_⟩
  rw [World.accepted, hreset]
  simp [World.counted, World.modifyClient]

theorem World.step_processed {w' : World} (hw : WF env w) (h : w.Utters e m (47 :: line)) (hflood : ¬ w.Floods e m)
    (hcmd : PacketMessage.processCommand env (w.accepted e.now (w.memberAt m).client) m (w.memberAt m).room
      (47 :: line) = some w') : w.step env e = w' := by
  obtain ⟨p, hp, htarget, hmessage⟩ := h.heard
  obtain ⟨_, _, _, _, _, _, _, hne⟩ := World.messageOf_some env hp
  have hcalm := w.accepted_calm e.now (w.memberAt m).client
  have hl : (w.accepted e.now (w.memberAt m).client).membership.Linked :=
    (w.accepted_frame e.now (w.memberAt m).client).membership ▸ hw.linked
  have hseated : m ∈ ((w.accepted e.now (w.memberAt m).client).roomAt (w.memberAt m).room).members :=
    hcalm.roomAt ▸ h.seated
  have hclient : ((w.accepted e.now (w.memberAt m).client).memberAt m).client = (w.memberAt m).client := by
    rw [hcalm.memberAt]
  have hjoined := (hl.joinedIff _ _).mpr ⟨m, hseated, hclient⟩
  have hroom := Client.getRoomByName_of_mem hl hjoined
  rw [hcalm.roomAt, ← htarget] at hroom
  have hmember := Room.findMemberByClient_eq hl hseated hclient
  rw [World.step_message hp]
  exact PacketMessage.process_command hne hflood (hmessage ▸ Command.line_not_blank line) rfl hroom hmember
    (hmessage ▸ hcmd)

theorem World.step_whisper (hw : WF env w) (hs : Seated w) (h : w.Utters e m line) (hread : readPrivate line = some (a, t)) :
    ∃ started count out, w.step env e = w.counted e.now (w.memberAt m).client e.now started count out ∧
      ((¬ w.Floods e m ∧ (w.memberAt m).hasNick ∧ ¬ Rx.blank.fullMatch t ∧
          ∃ m2 ∈ (w.roomAt (w.memberAt m).room).members, a.Names w m2 ∧
            out = w.mail (w.memberAt m).client (w.privateWire e.now m m2 t) ++
              w.mail (w.memberAt m2).client (w.privateWire e.now m m2 t)) ∨
        ((w.Floods e m ∨ ¬ (w.memberAt m).hasNick ∨ Rx.blank.fullMatch t ∨
            ∀ m2 ∈ (w.roomAt (w.memberAt m).room).members, ¬ a.Names w m2) ∧
          ∃ why : PacketSystem, out = w.mail (w.memberAt m).client (.packet (.system why)))) := by
  obtain ⟨s, hline, -⟩ := readPrivate_some hread
  by_cases hflood : w.Floods e m
  · obtain ⟨p, hp, -⟩ := h.heard
    obtain ⟨_, _, _, _, _, _, _, hne⟩ := World.messageOf_some env hp
    obtain ⟨started, count, hreset⟩ := w.reset_counted e.now (w.memberAt m).client
    have hcalm := PacketMessage.resetFlood_calm (c := (w.memberAt m).client) (w.heard_calm e.now (w.memberAt m).client)
    let why : PacketSystem := { target := p.target, message := utf8 "Вы слишком часто пишете!" }
    refine ⟨started, count, w.mail (w.memberAt m).client (.packet (.system why)), ?_, .inr ⟨.inl hflood, why, rfl⟩⟩
    rw [World.step_message hp, PacketMessage.process_refused hne hflood, Client.sendPacket_eq, hcalm.mail, hreset,
      World.counted_emit, List.nil_append]
  · have hcalm := w.accepted_calm e.now (w.memberAt m).client
    obtain ⟨started, count, hcounted⟩ := w.accepted_counted e.now (w.memberAt m).client
    have hcmd := PacketMessage.processCommand_private env (w.accepted e.now (w.memberAt m).client) m (w.memberAt m).room
      hread
    rw [hline] at hcmd h
    have hstep := World.step_processed hw h hflood hcmd
    rw [hcalm.memberAt, a.find_calm hcalm] at hstep
    by_cases hnick : (w.memberAt m).hasNick
    · rw [if_pos hnick] at hstep
      cases Member.whisper_cases (w.accepted e.now (w.memberAt m).client) m (a.find w (w.memberAt m).room) t with
      | inl hsent =>
        obtain ⟨m2, hfound, hblank, hwhisper⟩ := hsent
        obtain ⟨hm2, hnames⟩ := (Addressee.find_iff hs).mp hfound
        refine ⟨started, count, _, ?_, .inl ⟨hflood, hnick, hblank, m2, hm2, hnames, rfl⟩⟩
        rw [hstep, hwhisper, hcalm.mail, hcalm.mail, hcalm.memberAt, hcalm.privateWire (w.accepted_now _ _), hcounted,
          World.counted_emit, List.nil_append]
      | inr hsent =>
        obtain ⟨hwhy, why, hwhisper⟩ := hsent
        refine ⟨started, count, w.mail (w.memberAt m).client (.packet (.system why)), ?_, .inr ⟨.inr (.inr ?_), why, rfl⟩⟩
        · rw [hstep, hwhisper, hcalm.mail, hcalm.memberAt, hcounted, World.counted_emit, List.nil_append]
        · exact hwhy.symm.imp_right (Addressee.find_none hs).mp
    · rw [if_neg hnick] at hstep
      obtain ⟨why, hwhy⟩ : ∃ why : PacketSystem, PacketMessage.badcmd (w.accepted e.now (w.memberAt m).client) m
          (w.memberAt m).room = (w.accepted e.now (w.memberAt m).client).emit
            (w.mail (w.memberAt m).client (.packet (.system why))) :=
        ⟨_, by rw [PacketMessage.badcmd, Member.sendPacket_eq, hcalm.mail, hcalm.memberAt]⟩
      refine ⟨started, count, w.mail (w.memberAt m).client (.packet (.system why)), ?_, .inr ⟨.inr (.inl hnick), why, rfl⟩⟩
      rw [hstep, hwhy, hcounted, World.counted_emit, List.nil_append]

def World.SameState (w w' : World) : Prop := { w with sent := [] } = { w' with sent := [] }

/-- Two events that differ at most in the text of a private message. -/
inductive Event.Alike (env : Env) : Event → Event → Prop
  | same (e : Event) : Alike env e e
  | whisper {now : Int} {k : ConnectionPtr} {msg msg' : Option Json} {sv sv' : AuthServices} {p p' : PacketMessage}
      {a : Addressee} {t t' : Bytes} (hmsg : (Act.message k msg sv).packet env = some (.message p))
      (hmsg' : (Act.message k msg' sv').packet env = some (.message p')) (htarget : p.target = p'.target)
      (hread : readPrivate p.message = some (a, t)) (hread' : readPrivate p'.message = some (a, t'))
      (ht : ¬ Rx.blank.fullMatch t) (ht' : ¬ Rx.blank.fullMatch t') :
      Alike env ⟨now, .message k msg sv⟩ ⟨now, .message k msg' sv'⟩

def World.Party (w : World) (e : Event) (d : ClientPtr) : Prop :=
  ∃ m line a t m2, w.Utters e m line ∧ readPrivate line = some (a, t) ∧
    m2 ∈ (w.roomAt (w.memberAt m).room).members ∧ a.Names w m2 ∧
    (d = (w.memberAt m).client ∨ d = (w.memberAt m2).client)

variable {w' : World} {e' : Event}

theorem World.past_base (w : World) : World.past w.sent { w with sent := [] } = w := by
  simp [World.past]

theorem World.SameState.past (h : w.SameState w') :
    ∃ base o o', base.sent = [] ∧ w = World.past o base ∧ w' = World.past o' base := by
  refine ⟨{ w with sent := [] }, w.sent, w'.sent, rfl, w.past_base.symm, ?_⟩
  rw [show ({ w with sent := [] } : World) = { w' with sent := [] } from h]
  exact w'.past_base.symm

theorem World.SameState.step (env : Env) (h : w.SameState w') (e : Event) :
    (w.step env e).SameState (w'.step env e) ∧
      ∃ out, (w.step env e).sent = w.sent ++ out ∧ (w'.step env e).sent = w'.sent ++ out := by
  obtain ⟨base, o, o', hbase, rfl, rfl⟩ := h.past
  rw [World.step_past, World.step_past]
  exact ⟨rfl, (base.step env e).sent, by simp [hbase], by simp [hbase]⟩

theorem Member.whisper_sends (ht : ¬ Rx.blank.fullMatch t) :
    Member.whisper w m (some m2) t = w.emit
      (w.mail (w.memberAt m).client (.packet (.message (PacketMessage.ofMembers w m m2 t))) ++
        w.mail (w.memberAt m2).client (.packet (.message (PacketMessage.ofMembers w m m2 t)))) := by
  cases Member.whisper_cases w m (some m2) t with
  | inl h =>
    obtain ⟨m3, hdest, -, hsent⟩ := h
    cases hdest
    exact hsent
  | inr h =>
    cases h.1 with
    | inl hnone => cases hnone
    | inr hblank => exact absurd hblank ht

theorem PacketMessage.process_alike (env : Env) (u : World) (c : ClientPtr) {p p' : PacketMessage} {t' : Bytes}
    (htarget : p.target = p'.target) (hread : readPrivate p.message = some (a, t))
    (hread' : readPrivate p'.message = some (a, t')) (ht : ¬ Rx.blank.fullMatch t) (ht' : ¬ Rx.blank.fullMatch t') :
    PacketMessage.process env u c p = PacketMessage.process env u c p' ∨
      ∃ r m m2, let u' := (PacketMessage.resetFlood u c).modifyClient c fun cli =>
          { cli with messageCounter := cli.messageCounter + 1 }
        let sends (x : Wire) := u'.emit (u'.mail (u'.memberAt m).client x ++ u'.mail (u'.memberAt m2).client x)
        p.target ≠ [] ∧ Client.getRoomByName u' c p.target = some r ∧ Room.findMemberByClient u' r c = some m ∧
          a.find u' (u'.memberAt m).room = some m2 ∧
          PacketMessage.process env u c p = sends (.packet (.message (PacketMessage.ofMembers u' m m2 t))) ∧
          PacketMessage.process env u c p' = sends (.packet (.message (PacketMessage.ofMembers u' m m2 t'))) := by
  obtain ⟨s, hline, -⟩ := readPrivate_some hread
  obtain ⟨s', hline', -⟩ := readPrivate_some hread'
  have hempty : (p.target = [] ∨ p.message = []) ↔ p.target = [] := by simp [hline]
  have hempty' : (p'.target = [] ∨ p'.message = []) ↔ p.target = [] := by simp [hline', htarget]
  have hblank : ¬ Rx.blank.fullMatch p.message := hline ▸ Command.line_not_blank s
  have hblank' : ¬ Rx.blank.fullMatch p'.message := hline' ▸ Command.line_not_blank s'
  by_cases hne : p.target = []
  · left
    rw [PacketMessage.process, if_pos (hempty.mpr hne), PacketMessage.process, if_pos (hempty'.mpr hne)]
  unfold PacketMessage.process
  rw [if_neg (mt hempty.mp hne), if_neg (mt hempty'.mp hne), ← htarget]
  dsimp only
  generalize PacketMessage.resetFlood u c = v
  by_cases hflood : 3 < (v.clientAt c).messageCounter
  · rw [if_pos hflood, if_pos hflood]
    exact .inl rfl
  rw [if_neg hflood, if_neg hflood, if_neg hblank, if_neg hblank']
  generalize (v.modifyClient c fun cli => { cli with messageCounter := cli.messageCounter + 1 }) = u'
  cases hr : Client.getRoomByName u' c p.target with
  | none => exact .inl rfl
  | some r =>
    dsimp only
    cases hm : Room.findMemberByClient u' r c with
    | none => exact .inl rfl
    | some m =>
      dsimp only
      rw [PacketMessage.processCommand_private env u' m r hread, PacketMessage.processCommand_private env u' m r hread']
      dsimp only
      by_cases hnick : (u'.memberAt m).hasNick
      · rw [if_pos hnick, if_pos hnick]
        cases hfound : a.find u' (u'.memberAt m).room with
        | none =>
          left
          rw [Member.whisper, if_neg ht, Member.whisper, if_neg ht']
        | some m2 =>
          exact .inr ⟨r, m, m2, hne, rfl, hm, hfound, Member.whisper_sends ht, Member.whisper_sends ht'⟩
      · rw [if_neg hnick, if_neg hnick]
        exact .inl rfl

/-- Two outcomes of an event: the same server, and the same packets on the connections that are not set apart. -/
structure World.Tallies (w : World) (apart : ConnectionPtr → Prop) (w₁ w₂ : World) : Prop where
  state : w₁.SameState w₂
  sent : ∃ out out', w₁.sent = w.sent ++ out ∧ w₂.sent = w.sent ++ out' ∧ ∀ k, ¬ apart k → feed k out = feed k out'

theorem World.Tallies.of_eq {apart : ConnectionPtr → Prop} {w₁ w₂ : World} {out : List (ConnectionPtr × Wire)}
    (hout : w₁.sent = w.sent ++ out) (h : w₁ = w₂) : w.Tallies apart w₁ w₂ := by
  subst h
  exact ⟨rfl, out, out, hout, hout, fun _ _ => rfl⟩

theorem World.Tallies.emit {apart : ConnectionPtr → Prop} {u : World} {out out' : List (ConnectionPtr × Wire)}
    (hu : u.sent = w.sent) (h : ∀ k, ¬ apart k → feed k out = feed k out') : w.Tallies apart (u.emit out) (u.emit out') :=
  ⟨rfl, out, out', by rw [World.emit_sent, hu], by rw [World.emit_sent, hu], h⟩

theorem Act.packet_message {msg : Option Json} {sv : AuthServices} {p : Packet}
    (h : (Act.message k msg sv).packet env = some p) : ∃ obj, msg = some obj ∧ Packet.read env.unset obj = .ok (some p) := by
  obtain ⟨obj, hobj, hread⟩ := Option.bind_eq_some_iff.mp h
  refine ⟨obj, hobj, ?_⟩
  cases hr : Packet.read env.unset obj with
  | error e =>
    rw [hr] at hread
    cases hread
  | ok q =>
    rw [hr] at hread
    cases q with
    | none => cases hread
    | some q => rw [← Option.some.inj hread]

theorem World.step_brings (env : Env) (now : Int) {msg : Option Json} {sv : AuthServices} {p : Packet} (hh : w.hung = false)
    (hc : ClientsManager.findClientByConnection w k = some c) (hmsg : (Act.message k msg sv).packet env = some p) :
    w.step env ⟨now, .message k msg sv⟩ = p.process env sv (w.heard now c) c := by
  obtain ⟨obj, rfl, hread⟩ := Act.packet_message hmsg
  rw [World.step_running hh]
  exact Server.onMessage_read (w := { w with now := now }) hc hread sv

def World.Apart (w : World) (e e' : Event) (k : ConnectionPtr) : Prop :=
  e ≠ e' ∧ ∃ d, w.Party e d ∧ (w.clientAt d).connection = some k

theorem World.step_alike (hw : WF env w) (hs : Seated w) (h : e.Alike env e') :
    w.Tallies (w.Apart e e') (w.step env e) (w.step env e') := by
  obtain ⟨-, out, hout, -⟩ := World.SameState.step env (rfl : w.SameState w) e
  by_cases hdiffer : e = e'
  · exact .of_eq hout (congrArg (w.step env) hdiffer)
  cases h with
  | same e => exact absurd rfl hdiffer
  | whisper hmsg hmsg' htarget hread hread' ht ht' =>
    rename_i now k msg msg' sv sv' p p' a t t'
    by_cases hh : w.hung = true
    · rw [World.step_hung hh (by simp)] at hout ⊢
      rw [World.step_hung hh (by simp)]
      exact .of_eq hout rfl
    have hh : w.hung = false := by simpa using hh
    cases hc : ClientsManager.findClientByConnection w k with
    | none =>
      refine .of_eq hout ?_
      rw [World.step_running hh, World.step_running hh]
      change Server.onMessage env sv { w with now := now } k msg = Server.onMessage env sv' { w with now := now } k msg'
      have hnone : ClientsManager.findClientByConnection { w with now := now } k = none := hc
      rw [Server.onMessage, hnone, Server.onMessage, hnone]
    | some c =>
      have hstep : w.step env ⟨now, .message k msg sv⟩ = PacketMessage.process env (w.heard now c) c p :=
        World.step_brings env now hh hc hmsg
      have hstep' : w.step env ⟨now, .message k msg' sv'⟩ = PacketMessage.process env (w.heard now c) c p' :=
        World.step_brings env now hh hc hmsg'
      cases PacketMessage.process_alike env (w.heard now c) c htarget hread hread' ht ht' with
      | inl hsame => exact .of_eq hout (hstep.trans (hsame.trans hstep'.symm))
      | inr hsend =>
        obtain ⟨r, m, m2, hne, hr, hm, hfound, hsent, hsent'⟩ := hsend
        have hcalm : Calm w (w.accepted now c) := w.accepted_calm now c
        obtain ⟨hjoined, hname⟩ := Client.mem_of_getRoomByName hr
        obtain ⟨hseated, hclient⟩ := Room.mem_of_findMemberByClient hm
        change m ∈ ((w.accepted now c).roomAt r).members at hseated
        change ((w.accepted now c).memberAt m).client = c at hclient
        change ((w.accepted now c).roomAt r).name = p.target at hname
        change a.find (w.accepted now c) ((w.accepted now c).memberAt m).room = some m2 at hfound
        rw [hcalm.roomAt] at hseated hname
        rw [hcalm.memberAt] at hclient
        rw [a.find_calm hcalm, hcalm.memberAt] at hfound
        have hhome : (w.memberAt m).room = r := hw.linked.home r m hseated
        obtain ⟨hm2, hnames⟩ := (Addressee.find_iff hs).mp hfound
        obtain ⟨obj, hobj, hobjread⟩ := Act.packet_message hmsg
        have hmessage : w.messageOf ⟨now, .message k msg sv⟩ c = some p := by
          obtain ⟨s, hline, -⟩ := readPrivate_some hread
          rw [hobj]
          unfold World.messageOf
          simp [hh, hc, Packet.read_message {} hobjread, hne, hline]
        have hutters : w.Utters ⟨now, .message k msg sv⟩ m p.message :=
          ⟨hhome.symm ▸ hseated, p, hclient.symm ▸ hmessage, by rw [hhome, hname], rfl⟩
        rw [hstep, hsent, hstep', hsent']
        refine .emit hcalm.sent ?_
        intro j hj
        -- whoever owns the connection has nothing to do with the message
        have hother : ∀ d, d = (w.memberAt m).client ∨ d = (w.memberAt m2).client → (w.clientAt d).connection ≠ some j := by
          intro d hd hconn
          exact hj ⟨hdiffer, d, ⟨m, p.message, a, t, m2, hutters, hread, hm2, hnames, hd⟩, hconn⟩
        have hnothing : ∀ x, feed j ((w.accepted now c).mail ((w.accepted now c).memberAt m).client x ++
            (w.accepted now c).mail ((w.accepted now c).memberAt m2).client x) = [] := by
          intro x
          rw [feed_append, hcalm.mail, hcalm.mail, hcalm.memberAt, feed_mail, feed_mail,
            if_neg (hother _ (.inl rfl)), if_neg (hother _ (.inr rfl)), List.append_nil]
        exact (hnothing _).trans (hnothing _).symm

theorem World.SameState.step_alike (h : w.SameState w') (hw : WF env w) (hs : Seated w) (he : e.Alike env e') :
    (w.step env e).SameState (w'.step env e') ∧
      ∃ out out', (w.step env e).sent = w.sent ++ out ∧ (w'.step env e').sent = w'.sent ++ out' ∧
        ∀ k, ¬ w.Apart e e' k → feed k out = feed k out' := by
  obtain ⟨hstate, out, out', hsent, hsent', hfeed⟩ := World.step_alike hw hs he
  obtain ⟨hstate₂, out₂, hsent₂, hsent₂'⟩ := World.SameState.step env h e'
  have hout : out₂ = out' := List.append_cancel_left (hsent₂.symm.trans hsent')
  exact ⟨Eq.trans hstate hstate₂, out, out', hsent, hout ▸ hsent₂', hfeed⟩

/-- The connection belongs to someone who takes part in a private message that differs. -/
def Involved (env : Env) : World → List Event → List Event → ConnectionPtr → Prop
  | w, e :: us, e' :: us', k => w.Apart e e' k ∨ Involved env (w.step env e) us us' k
  | _, _, _, _ => False

theorem World.SameState.events (h : w.SameState w') (hw : WF env w) (hs : Seated w) {us us' : List Event}
    (hus : List.Forall₂ (Event.Alike env) us us') :
    (us.foldl (World.step env) w).SameState (us'.foldl (World.step env) w') ∧
      ∃ out out', (us.foldl (World.step env) w).sent = w.sent ++ out ∧
        (us'.foldl (World.step env) w').sent = w'.sent ++ out' ∧ ∀ k, ¬ Involved env w us us' k → feed k out = feed k out' := by
  induction hus generalizing w w' with
  | nil => exact ⟨h, [], [], (List.append_nil _).symm, (List.append_nil _).symm, fun _ _ => rfl⟩
  | cons he _ ih =>
    obtain ⟨hstate, first, first', hfirst, hfirst', hfeed⟩ := h.step_alike hw hs he
    obtain ⟨hend, out, out', hout, hout', hrest⟩ := ih hstate (hw.step _) (hs.step hw _)
    refine ⟨hend, first ++ out, first' ++ out', ?_, ?_, fun k hk => ?_⟩
    · rw [List.foldl_cons, hout, hfirst, List.append_assoc]
    · rw [List.foldl_cons, hout', hfirst', List.append_assoc]
    · rw [feed_append, feed_append, hfeed k fun hapart => hk (.inl hapart), hrest k fun hin => hk (.inr hin)]

end

/-- What a private message does: it is sent to its sender and to the one member with a nick that is addressed, and
to nobody else, and changes nothing but the counters of its sender. -/
theorem run_whisper (env : Env) (es : List Event) (e : Event) (m : MemberPtr) (line : Bytes) (a : Addressee) (t : Bytes) :
    let w := run env es
    let c := (w.memberAt m).client
    let members := (w.roomAt (w.memberAt m).room).members
    let delivered := ¬ w.Floods e m ∧ (w.memberAt m).hasNick ∧ ¬ Rx.blank.fullMatch t ∧ ∃ m2 ∈ members, a.Names w m2
    w.Utters e m line → readPrivate line = some (a, t) →
      (∀ m2 ∈ members, ∀ m3 ∈ members, a.Names w m2 → a.Names w m3 → m2 = m3) ∧
      ∃ started count out, w.step env e = w.counted e.now c e.now started count out ∧
        (delivered → ∀ m2 ∈ members, a.Names w m2 →
          out = w.mail c (w.privateWire e.now m m2 t) ++ w.mail (w.memberAt m2).client (w.privateWire e.now m m2 t)) ∧
        (¬ delivered → ∃ why : PacketSystem, out = w.mail c (.packet (.system why))) := by
  intro w c members delivered hutters hread
  have hs : Seated w := seated_run env es
  have hunique : ∀ m2 ∈ members, ∀ m3 ∈ members, a.Names w m2 → a.Names w m3 → m2 = m3 :=
    fun m2 hm2 m3 hm3 h₂ h₃ => Addressee.Names.unique hs hm2 hm3 h₂ h₃
  obtain ⟨started, count, out, hstep, hcases⟩ := World.step_whisper (wf_run env es) hs hutters hread
  refine ⟨hunique, started, count, out, hstep, ?_⟩
  cases hcases with
  | inl hsent =>
    obtain ⟨hflood, hnick, hblank, m2, hm2, hnames, hout⟩ := hsent
    refine ⟨fun _ m3 hm3 hnames₃ => ?_, fun hnot => absurd ⟨hflood, hnick, hblank, m2, hm2, hnames⟩ hnot⟩
    rw [hunique m3 hm3 m2 hm2 hnames₃ hnames]
    exact hout
  | inr htold =>
    obtain ⟨hwhy, hout⟩ := htold
    refine ⟨fun hdelivered => ?_, fun _ => hout⟩
    obtain ⟨hflood, hnick, hblank, m2, hm2, hnames⟩ := hdelivered
    rcases hwhy with hfloods | hnone | hempty | hnobody
    · exact absurd hfloods hflood
    · exact absurd hnick hnone
    · exact absurd hempty hblank
    · exact absurd hnames (hnobody m2 hm2)

theorem run_whisper_guest :
    let w := run Sample.surroundings Sample.room
    let x := w.privateWire 7 ⟨0⟩ ⟨1⟩ (utf8 "hi")
    let e := Sample.sends 7 1 (Sample.line (Command.privateMessage.line (utf8 "foo hi")))
    ∃ started count, w.step Sample.surroundings e =
      w.counted 7 ⟨0⟩ 7 started count (w.mail (w.memberAt ⟨0⟩).client x ++ w.mail (w.memberAt ⟨1⟩).client x) := by
  intro w x e
  have hutters : w.Utters e ⟨0⟩ (Command.privateMessage.line (utf8 "foo hi")) := Sample.utters (by decide +kernel)
  obtain ⟨-, started, count, out, hstep, hdelivered, -⟩ := run_whisper Sample.surroundings Sample.room e ⟨0⟩
    (Command.privateMessage.line (utf8 "foo hi")) (.nick (utf8 "foo")) (utf8 "hi") hutters (by decide +kernel)
  have hguest : ⟨1⟩ ∈ (w.roomAt (w.memberAt ⟨0⟩).room).members ∧ (Addressee.nick (utf8 "foo")).Names w ⟨1⟩ ∧
      ¬ w.Floods e ⟨0⟩ ∧ (w.memberAt ⟨0⟩).hasNick ∧ ¬ Rx.blank.fullMatch (utf8 "hi") ∧
      (w.memberAt ⟨0⟩).client = ⟨0⟩ := by decide +kernel
  obtain ⟨hseated, hnames, hflood, hnick, hblank, hclient⟩ := hguest
  have hout := hdelivered ⟨hflood, hnick, hblank, ⟨1⟩, hseated, hnames⟩ ⟨1⟩ hseated hnames
  refine ⟨started, count, ?_⟩
  rw [hstep, hout, hclient]
  rfl

/-- Private messages stay private: two runs from one state that differ only in the texts of private messages lead to
the same state, and every event brings the same to all connections but those of the sender and the addressee. -/
theorem run_private (env : Env) (es us us' : List Event) (e e' : Event)
    (hus : List.Forall₂ (Event.Alike env) us us') (he : e.Alike env e') :
    let w := run env (es ++ us)
    let w' := run env (es ++ us')
    w.SameState w' ∧
      ∃ out out', (w.step env e).sent = w.sent ++ out ∧ (w'.step env e').sent = w'.sent ++ out' ∧
        ∀ k, (e ≠ e' → ∀ d, w.Party e d → (w.clientAt d).connection ≠ some k) → feed k out = feed k out' := by
  intro w w'
  have hsame : w.SameState w' := by
    have hstart : (run env es).SameState (run env es) := rfl
    have hevents := (hstart.events (wf_run env es) (seated_run env es) hus).1
    rwa [← run_append, ← run_append] at hevents
  obtain ⟨-, out, out', hsent, hsent', hfeed⟩ := hsame.step_alike (wf_run env _) (seated_run env _) he
  refine ⟨hsame, out, out', hsent, hsent', fun k hk => hfeed k fun hapart => ?_⟩
  obtain ⟨hdiffer, d, hparty, hconn⟩ := hapart
  exact hk hdiffer d hparty hconn

def Sample.whispers (text : Bytes) : Event :=
  Sample.sends 7 1 (Sample.line (Command.privateMessage.line (utf8 "foo" ++ 32 :: text)))

theorem run_private_guest :
    let w := run Sample.surroundings (Sample.room ++ [Sample.whispers (utf8 "hi")])
    let w' := run Sample.surroundings (Sample.room ++ [Sample.whispers (utf8 "no")])
    let e := Sample.sends 9 2 (Sample.line (utf8 "hello"))
    w.sent ≠ w'.sent ∧ ∃ out out', (w.step Sample.surroundings e).sent = w.sent ++ out ∧
      (w'.step Sample.surroundings e).sent = w'.sent ++ out' ∧ ∀ k, feed k out = feed k out' := by
  intro w w' e
  have hi : (Sample.whispers (utf8 "hi")).act.packet Sample.surroundings =
      some (.message { target := utf8 "#room", message := Command.privateMessage.line (utf8 "foo hi") }) := by
    decide +kernel
  have hno : (Sample.whispers (utf8 "no")).act.packet Sample.surroundings =
      some (.message { target := utf8 "#room", message := Command.privateMessage.line (utf8 "foo no") }) := by
    decide +kernel
  have hread : readPrivate (Command.privateMessage.line (utf8 "foo hi")) = some (.nick (utf8 "foo"), utf8 "hi") := by
    decide +kernel
  have hread' : readPrivate (Command.privateMessage.line (utf8 "foo no")) = some (.nick (utf8 "foo"), utf8 "no") := by
    decide +kernel
  have halike : (Sample.whispers (utf8 "hi")).Alike Sample.surroundings (Sample.whispers (utf8 "no")) :=
    .whisper hi hno rfl hread hread' (by decide +kernel) (by decide +kernel)
  obtain ⟨-, out, out', hsent, hsent', hfeed⟩ := run_private Sample.surroundings Sample.room
    [Sample.whispers (utf8 "hi")] [Sample.whispers (utf8 "no")] e e (.cons halike .nil) (.same e)
  exact ⟨by decide +kernel, out, out', hsent, hsent', fun k => hfeed k fun hne => absurd rfl hne⟩

end WsChat
