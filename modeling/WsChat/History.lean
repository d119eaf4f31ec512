import WsChat.Persistence
import WsChat.Rights
import Mathlib.Data.List.Dedup
import Mathlib.Data.List.DropRight

/-! The history of a room is the tail of what was said in it in public, over every run and
through every save and restart. -/
namespace WsChat
open Lib Relation ClientsManager

def Wire.publicMessage : Wire → Option PacketMessage
  | .packet (.message p) => if p.toId = 0 then some p else none
  | _ => none

theorem Wire.publicMessage_eq_none {x : Wire} (h : ¬ x.Speech) : x.publicMessage = none := by
  cases x with
  | raw => rfl
  | packet p =>
    cases p with
    | message => exact absurd trivial h
    | _ => rfl

theorem Room.trimHistory_eq (maxHistory : Int) (l : List Bytes) :
    Room.trimHistory maxHistory l = l.rtake (maxHistory % 2 ^ 64).toNat := by
  induction l with
  | nil => simp [Room.trimHistory]
  | cons s rest ih =>
    unfold Room.trimHistory
    split
    · rename_i hlong
      rw [ih]
      unfold List.rtake
      rw [List.length_cons, Nat.succ_sub (Nat.le_of_lt_succ hlong), List.drop_succ_cons]
    · rename_i hshort
      unfold List.rtake
      rw [List.length_cons, Nat.sub_eq_zero_of_le (by omega), List.drop_zero]

theorem rtake_rtake_append {α : Type*} (l : List α) (a : α) (n : Nat) :
    (l.rtake n ++ [a]).rtake n = (l ++ [a]).rtake n := by
  cases n with
  | zero => simp
  | succ n =>
    rw [List.rtake_concat_succ, List.rtake_concat_succ]
    congr 1
    unfold List.rtake
    rw [List.drop_drop, List.length_drop]
    congr 1
    omega

theorem map_rtake {α β : Type*} (f : α → β) (l : List α) (n : Nat) : (l.rtake n).map f = (l.map f).rtake n := by
  unfold List.rtake
  rw [List.map_drop, List.length_map]

structure Room.SameLog (rm rm' : Room) : Prop where
  name : rm'.name = rm.name
  history : rm'.history = rm.history
  nextMessageId : rm'.nextMessageId = rm.nextMessageId

theorem Room.SameLog.rfl {rm : Room} : Room.SameLog rm rm := ⟨Eq.refl _, Eq.refl _, Eq.refl _⟩

theorem Room.SameLog.trans {rm rm' rm'' : Room} (h : Room.SameLog rm rm') (h' : Room.SameLog rm' rm'') :
    Room.SameLog rm rm'' :=
  ⟨h'.name.trans h.name, h'.history.trans h.history, h'.nextMessageId.trans h.nextMessageId⟩

/-- A room that has just been made, under a name that was free when the packet arrived. -/
structure World.NewRoom (w₀ w : World) (r : RoomPtr) : Prop where
  named : (w.roomAt r).name ≠ []
  history : (w.roomAt r).history = []
  nextMessageId : (w.roomAt r).nextMessageId = 0
  free : ∀ s ∈ w₀.rooms, (w₀.roomAt s).name ≠ (w.roomAt r).name

structure Hushed (w₀ w w' : World) : Prop where
  still : ∃ out, w'.sent = w.sent ++ out ∧ ∀ x ∈ out, x.2.publicMessage = none
  keeps : ∀ r ∈ w.membership.built, r ∈ w'.membership.built ∧ Room.SameLog (w.roomAt r) (w'.roomAt r)
  rooms : ∀ r ∈ w'.rooms, r ∈ w.rooms ∨ w₀.NewRoom w' r
  disk : w'.disk = w.disk

section
variable {env : Env} {c : ClientPtr} {w₀ w w' w'' : World} {S : Bytes → Prop}

theorem Hushed.refl (w₀ w : World) : Hushed w₀ w w :=
  ⟨⟨[], by simp, by simp⟩, fun _ hr => ⟨hr, .rfl⟩, fun _ hr => .inl hr, rfl⟩

theorem Hushed.trans (hl : w'.membership.Linked) (h : Hushed w₀ w w') (h' : Hushed w₀ w' w'') : Hushed w₀ w w'' := by
  obtain ⟨out, hout, hstill⟩ := h.still
  obtain ⟨out', hout', hstill'⟩ := h'.still
  refine ⟨⟨out ++ out', by rw [hout', hout, List.append_assoc], fun x hx => ?_⟩, fun r hr => ?_, fun r hr => ?_,
    h'.disk.trans h.disk⟩
  · exact (List.mem_append.mp hx).elim (hstill x) (hstill' x)
  · obtain ⟨hr', hlog⟩ := h.keeps r hr
    obtain ⟨hr'', hlog'⟩ := h'.keeps r hr'
    exact ⟨hr'', hlog.trans hlog'⟩
  · rcases h'.rooms r hr with hr' | hnew
    · refine (h.rooms r hr').imp_right fun hnew => ?_
      have hlog := (h'.keeps r (hl.built r hr')).2
      exact ⟨hlog.name.symm ▸ hnew.named, hlog.history.trans hnew.history,
        hlog.nextMessageId.trans hnew.nextMessageId, fun s hs => hlog.name.symm ▸ hnew.free s hs⟩
    · exact .inr hnew

theorem Hushed.of_thins (ht : Thins w w') {g : Registry} {ms : Membership ClientPtr RoomPtr MemberPtr Bytes}
    (he : Evolves w g ms w') (hb : ms.built = w.membership.built) (hr : ∀ r ∈ ms.rooms, r ∈ w.rooms) :
    Hushed w₀ w w' := by
  obtain ⟨out, hout, hstill⟩ := ht.still
  refine ⟨⟨out, hout, fun x hx => Wire.publicMessage_eq_none (hstill x hx)⟩, fun r hr' => ⟨?_, ?_⟩, fun r hr' => ?_,
    he.disk⟩
  · rw [he.membership, hb]
    exact hr'
  · exact ⟨(ht.room r).1, (ht.log r).1, (ht.log r).2⟩
  · have hms : r ∈ w'.membership.rooms := hr'
    rw [he.membership] at hms
    exact .inl (hr r hms)

theorem Hushed.of_frame (hf : Frame w w') (hlog : ∀ r, Room.SameLog (w.roomAt r) (w'.roomAt r))
    {out : List (ConnectionPtr × Wire)} (hsent : w'.sent = w.sent ++ out)
    (hout : ∀ x ∈ out, x.2.publicMessage = none) : Hushed w₀ w w' := by
  refine ⟨⟨out, hsent, hout⟩, fun r hr => ⟨?_, hlog r⟩, fun r hr => .inl ?_, hf.disk⟩
  · rw [hf.membership]
    exact hr
  · have hr' : r ∈ w'.membership.rooms := hr
    rw [hf.membership] at hr'
    exact hr'

theorem PacketMessage.ofMembers_private (hs : Seated w) {r : RoomPtr} {m m2 : MemberPtr} (hm2 : m2 ∈ (w.roomAt r).members)
    (text : Bytes) : (Wire.packet (.message (PacketMessage.ofMembers w m m2 text))).publicMessage = none := by
  have h0 : (w.memberAt m2).id ≠ 0 := hs.numbered r m2 hm2
  simp [Wire.publicMessage, PacketMessage.ofMembers, h0]

/-- A member says something in public, when nothing else has happened yet. -/
inductive Says (env : Env) (c : ClientPtr) (w₀ w : World) : World → Prop
  | say (r : RoomPtr) (m : MemberPtr) (style : Style) (text : Bytes) (hm : m ∈ (w.roomAt r).members)
      (hc : (w.memberAt m).client = c) (hn : (w.memberAt m).hasNick) (hcalm : Calm w₀ w) :
      Says env c w₀ w (Room.say env w r { PacketMessage.ofMember w m text with style := style })

theorem Quiet.speech (hs : Seated w) (h : Quiet env c w₀ S w w') : Hushed w₀ w w' ∨ Says env c w₀ w w' := by
  have hf := h.frame
  have hstill : ∀ {out : List (ConnectionPtr × Wire)}, (∀ x ∈ out, ¬ x.2.Speech) →
      ∀ x ∈ out, x.2.publicMessage = none := fun h x hx => Wire.publicMessage_eq_none (h x hx)
  cases h with
  | say r m style text _ hm hc hn hcalm => exact .inr (.say r m style text hm hc hn hcalm)
  | tell out hplain =>
    exact .inl (.of_frame hf (fun _ => .rfl) rfl (hstill fun x hx => (hplain x hx).not_speech))
  | list => exact .inl (.of_frame hf (fun _ => .rfl) rfl (hstill (still_mail id)))
  | touch => exact .inl (.of_frame hf (fun _ => .rfl) (List.append_nil _).symm (by simp))
  | identify => exact .inl (.of_frame hf (fun _ => .rfl) (List.append_nil _).symm (by simp))
  | whisper r m m2 text _ _ _ _ hm2 =>
    refine .inl (.of_frame hf (fun _ => .rfl) rfl fun x hx => ?_)
    have hx' : x.2 = .packet (.message (PacketMessage.ofMembers w m m2 text)) :=
      (List.mem_append.mp hx).elim (fun h => (World.mem_mail.mp h).2) fun h => (World.mem_mail.mp h).2
    rw [hx']
    exact PacketMessage.ofMembers_private hs hm2 text
  | presence | typing | rename =>
    exact .inl (.of_frame hf (fun _ => .rfl) rfl (hstill (still_roomMail id)))
  | restyle r m girl color stat =>
    rw [Member.announce_eq] at hf ⊢
    exact .inl (.of_frame hf (fun _ => .rfl) rfl (hstill (still_announcement _ m stat)))
  | dress => exact .inl (.of_frame hf (fun _ => .rfl) (List.append_nil _).symm (by simp))
  | ban s =>
    refine .inl (.of_frame hf (fun r => ?_) (List.append_nil _).symm (by simp))
    by_cases hr : r = s
    · subst hr
      exact ⟨by simp, by simp, by simp⟩
    · simpa [hr] using .rfl
  | appoint s =>
    refine .inl (.of_frame hf (fun r => ?_) (List.append_nil _).symm (by simp))
    by_cases hr : r = s
    · subst hr
      exact ⟨by simp, by simp, by simp⟩
    · simpa [hr] using .rfl

theorem Rx.roomName_ne_nil {name : Bytes} (h : Rx.roomName.fullMatch name) : name ≠ [] := by
  rintro rfl
  exact absurd h (by decide +kernel)

theorem Move.speech (hw : WF env w) (hs : Seated w) (h : Move env c w₀ S w w') :
    Hushed w₀ w w' ∨ Says env c w₀ w w' := by
  cases h with
  | quiet hq => exact hq.speech hs
  | hang => exact .inl ⟨⟨[], by simp, by simp⟩, fun _ hr => ⟨hr, .rfl⟩, fun _ hr => .inl hr, rfl⟩
  | issue r id =>
    refine .inl ⟨⟨[], by simp [World.issue], by simp⟩, fun s hr => ⟨hr, ?_⟩, fun _ hr => .inl hr, rfl⟩
    by_cases hs : s = r
    · subst hs
      exact ⟨by simp [World.issue], by simp [World.issue], by simp [World.issue]⟩
    · simpa [World.issue, hs] using .rfl
  | enter r id sequenceId loadHistory =>
    refine .inl ⟨⟨_, rfl, fun x hx => ?_⟩, fun s hr => ⟨hr, ?_⟩, fun _ hr => .inl hr, rfl⟩
    · exact Wire.publicMessage_eq_none (still_welcomeMail _ _ _ _ _ _ x hx)
    · by_cases hs : s = r
      · subst hs
        exact ⟨by simp [World.enter], by simp [World.enter], by simp [World.enter]⟩
      · simpa [World.enter, hs] using .rfl
  | leave r _ hr =>
    obtain ⟨m, -, -, he⟩ := Client.leaveRoom_evolves env hw.linked hr
    exact .inl (.of_thins (.leaveRoom w c r) he rfl fun _ hr => hr)
  | kick r m => exact .inl (.of_thins (.kickMember w r m) Room.kickMember_evolves rfl fun _ hr => hr)
  | banKick r m nick =>
    have hf := Frame.modifyRoom w r (fun rm => { rm with bannedNicks := rm.bannedNicks.insert nick }) rfl rfl
    have hban : Hushed w₀ w (w.modifyRoom r fun rm => { rm with bannedNicks := rm.bannedNicks.insert nick }) := by
      refine .of_frame hf (fun s => ?_) (List.append_nil _).symm (by simp)
      by_cases hs : s = r
      · subst hs
        exact ⟨by simp, by simp, by simp⟩
      · simpa [hs] using .rfl
    exact .inl (hban.trans (hf.membership ▸ hw.linked)
      (.of_thins (.kickMember _ r m) Room.kickMember_evolves rfl fun _ hr => hr))
  | create name _ hfull hname hcalm =>
    have hold : ∀ s ∈ w.membership.built, s ≠ ⟨w.nextRoom⟩ := by
      rintro s hs rfl
      exact Nat.lt_irrefl _ hs
    refine .inl ⟨⟨[], by simp [World.found], by simp⟩, fun s hs => ⟨?_, ?_⟩, fun s hs => ?_, rfl⟩
    · exact Nat.lt_succ_of_lt hs
    · simpa [World.found, hold s hs] using .rfl
    · rcases IterSet.mem_insert.mp hs with rfl | hs
      · refine .inr ⟨?_, by simp [World.found], by simp [World.found], fun s hs => ?_⟩
        · simpa [World.found] using Rx.roomName_ne_nil hfull
        rw [← hcalm.roomAt]
        simpa [World.found] using Server.not_mem_of_getRoomByName hname s (hcalm.rooms ▸ hs)
      · exact .inl hs
  | raze r name _ hr =>
    exact .inl (.of_thins (.removeRoom w name) (Server.removeRoom_evolves hw.linked hr) rfl fun _ hs => hs.1)
  | revive t k p _ hc ht hct hk hp =>
    have hemit : Hushed w₀ w (w.emit [(k, .packet p)]) := by
      refine .of_frame (Frame.emit w _) (fun _ => .rfl) rfl fun x hx => ?_
      cases List.mem_singleton.mp hx
      exact Wire.publicMessage_eq_none hp.not_speech
    have hw' := hw.frame (Frame.emit w [(k, .packet p)])
    exact .inl (hemit.trans hw'.linked (.of_thins (.reviveClient _ c t)
      ((reviveClient_evolves hw'.indexed hw'.linked hc ht hct hk).then_frame (Server.reviveClient_frame _ c t)) rfl
      fun _ hs => hs))

/-- A packet of the client leaves the logs alone, or its member in one room says something. -/
inductive Heard (env : Env) (c : ClientPtr) (w w' : World) : Prop
  | nothing (h : Hushed w w w')
  | said (r : RoomPtr) (m : MemberPtr) (style : Style) (text : Bytes) (w₁ : World) (hm : m ∈ (w.roomAt r).members)
      (hc : (w.memberAt m).client = c) (hn : (w.memberAt m).hasNick) (hcalm : Calm w w₁) (hnow : Hushed w w w₁)
      (h : Hushed w (Room.say env w₁ r { PacketMessage.ofMember w₁ m text with style := style }) w')

theorem Says.last {w₁ : World} {r : RoomPtr} {p : PacketMessage} (hr : r ∈ w₁.membership.built) (hcalm : Calm w w₁)
    (h : Hushed w (Room.say env w₁ r p) w') : ¬ Calm w w' := by
  intro hcalm'
  rw [Room.say_eq] at h
  have hlog := (h.keeps r hr).2.nextMessageId
  rw [hcalm'.roomAt, ← hcalm.roomAt] at hlog
  simp at hlog

theorem Seated.steps (hw : WF env w) (hs : Seated w) (h : Steps env c w₀ S w w') : Seated w' :=
  steps_preserve_under (fun _ _ hw hm => hw.move hm) (fun _ _ hw hs hm => hs.move hw hm) h hw hs

theorem Steps.heard (hw : WF env w) (hs : Seated w) (h : Steps env c w S w w') : Heard env c w w' := by
  induction h with
  | refl => exact .nothing (.refl w w)
  | @tail w₁ w₂ hsteps hmove ih =>
    have hw₁ := hw.steps hsteps
    rcases hmove.speech hw₁ (hs.steps hw hsteps) with hush | hsays
    · cases ih with
      | nothing h => exact .nothing (h.trans hw₁.linked hush)
      | said r m style text w₃ hm hc hn hcalm hnow h =>
        exact .said r m style text w₃ hm hc hn hcalm hnow (h.trans hw₁.linked hush)
    · cases hsays with
      | say r m style text hm hc hn hcalm =>
        cases ih with
        | nothing h =>
          rw [hcalm.roomAt] at hm
          rw [hcalm.memberAt] at hc hn
          exact .said r m style text w₁ hm hc hn hcalm h (.refl w _)
        | said r' _ _ _ w₃ hm' _ _ hcalm' hnow h =>
          have hr : r' ∈ w₃.membership.built := (hnow.keeps r' (hw.linked.built r' (hw.linked.listed r' _ hm'))).1
          exact absurd hcalm (Says.last hr hcalm' h)

theorem Hushed.of_eq (hr : w'.roomAt = w.roomAt) (hrooms : w'.rooms = w.rooms) (hn : w'.nextRoom = w.nextRoom)
    (hsent : w'.sent = w.sent) (hdisk : w'.disk = w.disk) : Hushed w₀ w w' := by
  refine ⟨⟨[], by rw [hsent, List.append_nil], by simp⟩, fun r hb => ⟨?_, hr ▸ .rfl⟩,
    fun r hin => .inl (hrooms ▸ hin), hdisk⟩
  unfold World.membership
  rw [hn]
  exact hb

theorem ClientsManager.connect_hushed (w₀ w : World) (k : ConnectionPtr) (draws : List Token) :
    Hushed w₀ w (connect env w k draws) := by
  unfold connect
  split <;> exact .of_eq rfl rfl rfl rfl rfl

theorem Routine.hushed (hw : WF env w) (h : Routine env w w') : Hushed w₀ w w' := by
  cases h with
  | clock => exact .of_eq rfl rfl rfl rfl rfl
  | opening k draws =>
    have harrival : Hushed w₀ w (w.arrival env k) := .of_eq rfl rfl rfl rfl rfl
    have hl : (w.arrival env k).membership.Linked := hw.linked
    rcases Server.onOpen_cases env hw k draws with ⟨-, he⟩ | ⟨-, ⟨-, he⟩ | ⟨c, hc, -, hck, -, he⟩⟩
    · rw [he]
      exact harrival.trans hl (.of_eq rfl rfl rfl rfl rfl)
    · rw [he]
      exact harrival.trans hl (connect_hushed _ _ k draws)
    · rw [he]
      have hev := remove_orphan_evolves (World.arrival_indexed (k := k) hw) hl hc hck
      have hremove : Hushed w₀ (w.arrival env k) (remove env (w.arrival env k) c) :=
        .of_thins (.remove _ c) hev rfl fun _ hr => hr
      have hl' : (remove env (w.arrival env k) c).membership.Linked := hev.membership ▸ hl.withdraw
      exact (harrival.trans hl hremove).trans hl' (connect_hushed _ _ k draws)
  | ping c =>
    rw [Client.sendPacket_eq]
    exact .of_frame (Frame.emit w _) (fun _ => .rfl) rfl fun x hx => Wire.publicMessage_eq_none (still_mail id x hx)
  | mark => exact .of_eq rfl rfl rfl rfl rfl
  | orphan c hc =>
    exact .of_thins (.makeOrphan w c) (makeOrphan_evolves hw.indexed hw.linked hc) rfl fun _ hr => hr
  | drop c hc => exact .of_thins (.remove w c) (remove_evolves hw.indexed hw.linked hc) rfl fun _ hr => hr

theorem Routines.hushed (hw : WF env w) (h : Routines env w w') : Hushed w₀ w w' := by
  induction h with
  | refl => exact .refl w₀ w
  | tail hs hr ih => exact ih.trans (hw.routines hs).linked (hr.hushed (hw.routines hs))

def World.heardIn (w w' : World) (name : Bytes) : List PacketMessage :=
  (((w'.sent.drop w.sent.length).filterMap fun x => x.2.publicMessage).filter fun p => p.target == name).dedup

/-- The conversations in the rooms by their names, and as they were when the state was saved. -/
structure Talk where
  live : Bytes → List PacketMessage := fun _ => []
  saved : Bytes → List PacketMessage := fun _ => []

/-- A new room has a new conversation, and a room that is restored takes up the saved one. -/
def Talk.step (t : Talk) (w w' : World) : Act → Talk
  | .save => { t with saved := t.live }
  | .restart => { t with live := t.saved }
  | _ => { t with live := fun name =>
      if (Server.getRoomByName w name).isSome then t.live name ++ w.heardIn w' name else [] }

def runTalk (env : Env) (es : List Event) : World × Talk :=
  es.foldl (fun s e => (s.1.step env e, s.2.step s.1 (s.1.step env e) e.act)) (World.boot env, {})

/-- The conversation of the room of the name, from when the room was made. -/
def conversation (env : Env) (es : List Event) (name : Bytes) : List PacketMessage := (runTalk env es).2.live name

/-- The log of the room is the tail of the conversation. -/
structure Room.Records (env : Env) (talk : List PacketMessage) (rm : Room) : Prop where
  history : rm.history = (talk.rtake env.maxHistory.toNat).map fun p => env.write p.serialize
  nextMessageId : rm.nextMessageId = UInt32.ofNat talk.length
  id : ∀ (i : Nat) (p : PacketMessage), talk[i]? = some p → p.id = decimal (i % 2 ^ 32 : Nat)
  address : ∀ p ∈ talk, p.toId = 0 ∧ p.target = rm.name

/-- The log of the room is the tail of the conversation, however long it may get. -/
structure Room.Logs (env : Env) (talk : List PacketMessage) (rm : Room) : Prop where
  history : rm.history = (talk.rtake (env.maxHistory % 2 ^ 64).toNat).map fun p => env.write p.serialize
  nextMessageId : rm.nextMessageId = UInt32.ofNat talk.length
  id : ∀ (i : Nat) (p : PacketMessage), talk[i]? = some p → p.id = decimal (i % 2 ^ 32 : Nat)
  address : ∀ p ∈ talk, p.toId = 0 ∧ p.target = rm.name

theorem Room.Logs.records (hK : 0 ≤ env.maxHistory ∧ env.maxHistory < 2 ^ 31) {talk : List PacketMessage} {rm : Room}
    (h : Room.Logs env talk rm) : Room.Records env talk rm := by
  have hmax : (env.maxHistory % 2 ^ 64).toNat = env.maxHistory.toNat := by omega
  exact ⟨by rw [h.history, hmax], h.nextMessageId, h.id, h.address⟩

theorem Room.Logs.of_sameLog {talk : List PacketMessage} {rm rm' : Room} (h : Room.Logs env talk rm)
    (hlog : Room.SameLog rm rm') : Room.Logs env talk rm' :=
  ⟨hlog.history.trans h.history, hlog.nextMessageId.trans h.nextMessageId, h.id, hlog.name.symm ▸ h.address⟩

theorem Room.Logs.new {rm : Room} (hh : rm.history = []) (hn : rm.nextMessageId = 0) : Room.Logs env [] rm :=
  ⟨by rw [hh, List.rtake_nil]; rfl, hn, fun i p h => (by cases h), fun p h => (by cases h)⟩

theorem Room.Logs.say {talk : List PacketMessage} {rm : Room} (h : Room.Logs env talk rm) {p : PacketMessage}
    (hid : p.id = decimal rm.nextMessageId.toNat) (hto : p.toId = 0) (htarget : p.target = rm.name) :
    Room.Logs env (talk ++ [p]) { rm with
      nextMessageId := rm.nextMessageId + 1
      history := Room.trimHistory env.maxHistory (rm.history ++ [env.write p.serialize]) } := by
  refine ⟨?_, ?_, fun i q hq => ?_, fun q hq => ?_⟩
  · dsimp only
    rw [Room.trimHistory_eq, h.history, map_rtake, map_rtake, rtake_rtake_append, List.map_append,
      List.map_singleton]
  · dsimp only
    rw [h.nextMessageId, List.length_append, UInt32.ofNat_add]
    rfl
  · rw [List.getElem?_append] at hq
    split at hq
    · exact h.id i q hq
    · rename_i hi
      have hlast : i = talk.length ∧ p = q := by
        cases hsub : i - talk.length with
        | zero =>
          rw [hsub] at hq
          exact ⟨by omega, by simpa using hq⟩
        | succ j =>
          rw [hsub] at hq
          cases hq
      rw [← hlast.2, hid, h.nextMessageId, hlast.1]
      rfl
  · rcases List.mem_append.mp hq with hq | hq
    · exact h.address q hq
    · cases List.mem_singleton.mp hq
      exact ⟨hto, htarget⟩

theorem World.heardIn_eq {out : List (ConnectionPtr × Wire)} (h : w'.sent = w.sent ++ out) (name : Bytes) :
    w.heardIn w' name = ((out.filterMap fun x => x.2.publicMessage).filter fun p => p.target == name).dedup := by
  unfold World.heardIn
  rw [h, List.drop_left]

theorem Hushed.heardIn (h : Hushed w₀ w w') (name : Bytes) : w.heardIn w' name = [] := by
  obtain ⟨out, hout, hstill⟩ := h.still
  rw [World.heardIn_eq hout, List.filterMap_eq_nil_iff.mpr hstill]
  rfl

structure Talk.Tells (env : Env) (w : World) (t : Talk) : Prop where
  rooms : ∀ r ∈ w.rooms, Room.Records env (t.live (w.roomAt r).name) (w.roomAt r)
  disk : w.Stored fun rm => Room.Records env (t.saved rm.name) rm

structure Talk.Logs (env : Env) (w : World) (t : Talk) : Prop where
  rooms : ∀ r ∈ w.rooms, Room.Logs env (t.live (w.roomAt r).name) (w.roomAt r)
  disk : w.Stored fun rm => Room.Logs env (t.saved rm.name) rm

def Talk.listen (t : Talk) (w w' : World) : Talk :=
  { t with live := fun name =>
      if (Server.getRoomByName w name).isSome then t.live name ++ w.heardIn w' name else [] }

theorem Talk.listen_old {t : Talk} {r : RoomPtr} (hr : r ∈ w.rooms) :
    (t.listen w w').live (w.roomAt r).name =
      t.live (w.roomAt r).name ++ w.heardIn w' (w.roomAt r).name := by
  have hsome : (Server.getRoomByName w (w.roomAt r).name).isSome :=
    List.find?_isSome.mpr ⟨r, hr, by simp⟩
  exact if_pos hsome

theorem Talk.listen_new {t : Talk} {name : Bytes} (h : ∀ s ∈ w.rooms, (w.roomAt s).name ≠ name) :
    (t.listen w w').live name = [] := by
  have hnone : Server.getRoomByName w name = none :=
    List.find?_eq_none.mpr fun s hs => by simpa using h s hs
  exact if_neg (by simp [hnone])

theorem Talk.Logs.hushed {t : Talk} (ht : t.Logs env w) (hl : w.membership.Linked) (h : Hushed w w w') :
    (t.listen w w').Logs env w' := by
  refine ⟨fun r hr => ?_, by unfold World.Stored; rw [h.disk]; exact ht.disk⟩
  rcases h.rooms r hr with hr | hnew
  · have hlog := (h.keeps r (hl.built r hr)).2
    rw [hlog.name, Talk.listen_old hr, h.heardIn, List.append_nil]
    exact (ht.rooms r hr).of_sameLog hlog
  · rw [Talk.listen_new hnew.free]
    exact .new hnew.history hnew.nextMessageId

theorem dedup_same {α : Type*} [DecidableEq α] {l : List α} {a : α} {q : α → Bool} (h : ∀ b ∈ l, b = a)
    (hne : a ∈ l) : (l.filter q).dedup = if q a then [a] else [] := by
  have hl := List.eq_replicate_of_mem h
  have hpos : l.length ≠ 0 := (List.length_pos_of_mem hne).ne'
  rw [hl, List.filter_replicate]
  split
  · exact List.replicate_dedup hpos
  · exact List.dedup_nil

section
variable {w₁ : World} {r : RoomPtr} {m : MemberPtr} {style : Style} {text : Bytes}

def World.spoken (w : World) (r : RoomPtr) (m : MemberPtr) (style : Style) (text : Bytes) : PacketMessage :=
  PacketMessage.numbered { PacketMessage.ofMember w m text with style := style } (w.roomAt r).nextMessageId

theorem World.spoken_target (hl : w.membership.Linked) (hm : m ∈ (w.roomAt r).members) (hcalm : Calm w w₁) :
    (w₁.spoken r m style text).target = (w.roomAt r).name := by
  have hhome : (w.memberAt m).room = r := hl.home r m hm
  change (w₁.roomAt (w₁.memberAt m).room).name = _
  rw [hcalm.roomAt, hcalm.memberAt, hhome]

theorem World.sent_said (hcalm : Calm w w₁)
    (h : Hushed w (Room.say env w₁ r { PacketMessage.ofMember w₁ m text with style := style }) w') :
    ∃ out, w'.sent = w.sent ++ (w₁.roomMail r (.packet (.message (w₁.spoken r m style text))) ++ out) ∧
      ∀ x ∈ out, x.2.publicMessage = none := by
  obtain ⟨out, hout, hstill⟩ := h.still
  refine ⟨out, ?_, hstill⟩
  rw [hout, ← hcalm.sent, ← List.append_assoc]
  exact congrArg (World.sent · ++ out) (Room.say_eq env w₁ r _)

theorem World.heardIn_said (hm : m ∈ (w.roomAt r).members) {k : ConnectionPtr}
    (hk : (w.clientAt (w.memberAt m).client).connection = some k) (hcalm : Calm w w₁)
    (h : Hushed w (Room.say env w₁ r { PacketMessage.ofMember w₁ m text with style := style }) w') (name : Bytes) :
    w.heardIn w' name =
      if (w₁.spoken r m style text).target == name then [w₁.spoken r m style text] else [] := by
  obtain ⟨out, hsent, hstill⟩ := World.sent_said hcalm h
  rw [World.heardIn_eq hsent, List.filterMap_append, List.filterMap_eq_nil_iff.mpr hstill, List.append_nil]
  refine dedup_same (fun q hq => ?_) ?_
  · obtain ⟨x, hx, hxq⟩ := List.mem_filterMap.mp hq
    rw [(World.mem_roomMail.mp hx).2] at hxq
    exact (Option.some.inj hxq).symm
  · refine List.mem_filterMap.mpr ⟨(k, .packet (.message (w₁.spoken r m style text))),
      World.mem_roomMail.mpr ⟨⟨m, ?_, ?_⟩, rfl⟩, rfl⟩
    · rw [hcalm.roomAt]
      exact hm
    · rw [hcalm.connection, hcalm.memberAt]
      exact hk

end

theorem Talk.Logs.said {t : Talk} (ht : t.Logs env w)
    (hw : WF env w) {w₁ : World} {r : RoomPtr} {m : MemberPtr} {style : Style} {text : Bytes}
    (hm : m ∈ (w.roomAt r).members) {k : ConnectionPtr}
    (hk : (w.clientAt (w.memberAt m).client).connection = some k) (hcalm : Calm w w₁)
    (hnow : Hushed w w w₁)
    (h : Hushed w (Room.say env w₁ r { PacketMessage.ofMember w₁ m text with style := style }) w') :
    (t.listen w w').Logs env w' := by
  have hr : r ∈ w.rooms := hw.linked.listed r m hm
  let p : PacketMessage := { PacketMessage.ofMember w₁ m text with style := style }
  let said := w₁.spoken r m style text
  have htarget : said.target = (w.roomAt r).name := World.spoken_target hw.linked hm hcalm
  have hsay := Room.say_eq env w₁ r p
  have hheard : ∀ name, w.heardIn w' name = if said.target == name then [said] else [] :=
    World.heardIn_said hm hk hcalm h
  have hrooms : (Room.say env w₁ r p).rooms = w.rooms := by
    rw [hsay]
    exact hcalm.rooms
  have hat : (Room.say env w₁ r p).roomAt = Function.update w.roomAt r { w.roomAt r with
      nextMessageId := (w.roomAt r).nextMessageId + 1
      history := Room.trimHistory env.maxHistory ((w.roomAt r).history ++ [env.write said.serialize]) } := by
    rw [hsay, ← hcalm.roomAt]
    rfl
  have hdisk : w'.disk = w.disk := by
    rw [h.disk, hsay]
    exact hnow.disk
  have hbuilt : ∀ s ∈ w.rooms, s ∈ (Room.say env w₁ r p).membership.built := by
    intro s hs
    rw [hsay]
    exact (hnow.keeps s (hw.linked.built s hs)).1
  refine ⟨fun s hs => ?_, by unfold World.Stored; rw [hdisk]; exact ht.disk⟩
  rcases h.rooms s hs with hs | hnew
  · rw [hrooms] at hs
    have hlog := (h.keeps s (hbuilt s hs)).2
    rw [hat] at hlog
    by_cases hsr : s = r
    · subst hsr
      rw [Function.update_self] at hlog
      have hname : (w'.roomAt s).name = (w.roomAt s).name := hlog.name
      rw [hname, Talk.listen_old hr, hheard, if_pos (by rw [htarget]; exact beq_self_eq_true _)]
      have hid : said.id = decimal (w.roomAt s).nextMessageId.toNat := by
        rw [← hcalm.roomAt]
        rfl
      exact ((ht.rooms s hr).say hid rfl htarget).of_sameLog hlog
    · rw [Function.update_of_ne hsr] at hlog
      have hne : said.target ≠ (w.roomAt s).name := by
        rw [htarget]
        exact fun he => hsr (hw.linked.names s hs r hr he.symm)
      rw [hlog.name, Talk.listen_old hs, hheard, if_neg (by simpa using hne), List.append_nil]
      exact (ht.rooms s hs).of_sameLog hlog
  · rw [Talk.listen_new hnew.free]
    exact .new hnew.history hnew.nextMessageId

theorem Heard.logs {t : Talk} (ht : t.Logs env w)
    (hw : WF env w) {k : ConnectionPtr} (hk : (w.clientAt c).connection = some k) (h : Heard env c w w') :
    (t.listen w w').Logs env w' := by
  cases h with
  | nothing h => exact ht.hushed hw.linked h
  | said r m style text w₁ hm hc _ hcalm hnow h =>
    subst hc
    exact ht.said hw hm hk hcalm hnow h

theorem Talk.Logs.restart {t : Talk} (ht : t.Logs env w) (hw : WF env w) :
    Talk.Logs env w.restart { t with live := t.saved } := by
  have hrooms := World.Stored.restart (P := fun rm => Room.Logs env (t.saved rm.name) rm)
    (fun _ h => h.of_sameLog ⟨rfl, rfl, rfl⟩) ht.disk
  have hdisk : w.restart.Stored fun rm => Room.Logs env (t.saved rm.name) rm := by
    unfold World.Stored
    rw [World.restart_disk hw.saved]
    exact ht.disk
  exact ⟨hrooms, hdisk⟩

theorem World.step_hung (hh : w.hung = true) {now : Int} {act : Act} (hact : ¬ (act = .save ∨ act = .restart)) :
    w.step env ⟨now, act⟩ = { w with now := now } := by
  cases w
  cases hh
  cases act with
  | save | restart => simp at hact
  | _ => rfl

theorem World.step_heard (hw : WF env w) (e : Event) (hact : ¬ (e.act = .save ∨ e.act = .restart)) :
    let w₀ : World := { w with now := e.now }
    Routines env w₀ (w.step env e) ∨
      ∃ c k, (w₀.clientAt c).connection = some k ∧ Steps env c w₀ Anywhere w₀ (w.step env e) := by
  intro w₀
  have hw₀ : WF env w₀ := hw.chore (.clock e.now)
  by_cases hh : w.hung = true
  · rw [World.step_hung hh hact]
    exact .inl .refl
  · rw [World.step_running (by simpa using hh)]
    rcases World.handle_cases hw₀ e.act with h | ⟨⟨k, msg, sv, hmsg⟩, -⟩ | ⟨h, -⟩
    · exact .inl h
    · have hmessage : World.handle env w₀ e.act = Server.onMessage env sv w₀ k msg := by
        rw [hmsg]
        rfl
      rw [hmessage]
      unfold Server.onMessage
      cases hc : findClientByConnection w₀ k with
      | none => exact .inl .refl
      | some c =>
        obtain ⟨hcl, hk⟩ := ClientsManager.findClientByConnection_spec hw₀ hc
        exact .inr ⟨c, k, hk, Client.onPacket_steps hw₀ hcl hk sv msg⟩
    · exact absurd h hact

theorem Talk.step_listen (t : Talk) (now : Int) {act : Act} (hact : ¬ (act = .save ∨ act = .restart)) :
    t.step w w' act = t.listen { w with now := now } w' := by
  cases act with
  | save | restart => simp at hact
  | _ => rfl

theorem World.step_save (w : World) (now : Int) :
    w.step env ⟨now, .save⟩ = { w with now := now, disk := Server.serialize { w with now := now } } := by
  unfold World.step
  cases w.hung <;> rfl

theorem World.step_restart (w : World) (now : Int) :
    w.step env ⟨now, .restart⟩ = World.restart { w with now := now } := by
  unfold World.step
  cases w.hung <;> rfl

theorem Talk.Logs.step {t : Talk} (ht : t.Logs env w)
    (hw : WF env w) (hs : Seated w) (e : Event) : (t.step w (w.step env e) e.act).Logs env (w.step env e) := by
  obtain ⟨now, act⟩ := e
  have hw' : WF env { w with now := now } := hw.chore (.clock now)
  have hs' : Seated { w with now := now } := hs.chore hw (.clock now)
  have ht' : t.Logs env { w with now := now } := ⟨ht.rooms, ht.disk⟩
  by_cases hact : act = .save ∨ act = .restart
  · rcases hact with rfl | rfl
    · rw [World.step_save]
      exact ⟨ht.rooms, .inr ⟨_, rfl, ht'.rooms⟩⟩
    · rw [World.step_restart]
      exact ht'.restart hw'
  · dsimp only
    rw [Talk.step_listen t now hact]
    rcases World.step_heard hw ⟨now, act⟩ hact with h | ⟨c, k, hk, h⟩
    · exact ht'.hushed hw'.linked (h.hushed hw')
    · exact (h.heard hw' hs').logs ht' hw' hk

theorem runTalk_fst (env : Env) (es : List Event) : (runTalk env es).1 = run env es := by
  unfold runTalk run
  generalize World.boot env = w
  generalize ({} : Talk) = t
  induction es generalizing w t with
  | nil => rfl
  | cons e es ih => exact ih _ _

theorem logs_run (env : Env) (es : List Event) : (runTalk env es).2.Logs env (run env es) := by
  rw [← runTalk_fst]
  refine (foldl_invariant (P := fun s : World × Talk => WF env s.1 ∧ Seated s.1 ∧ s.2.Logs env s.1) _
    (fun s e h => ?_) es ⟨WF.init, Seated.init env, ?_⟩).2.2
  · obtain ⟨hw, hs, ht⟩ := h
    exact ⟨hw.step e, hs.step hw e, ht.step hw hs e⟩
  · exact ⟨fun r hr => absurd hr (IterSet.not_mem_empty r), .inl rfl⟩

theorem tells_run (env : Env) (hK : 0 ≤ env.maxHistory ∧ env.maxHistory < 2 ^ 31) (es : List Event) :
    (runTalk env es).2.Tells env (run env es) := by
  have h := logs_run env es
  refine ⟨fun r hr => (h.rooms r hr).records hK, ?_⟩
  cases h.disk with
  | inl hnull => exact .inl hnull
  | inr hfile =>
    obtain ⟨w₀, hdisk, hrooms⟩ := hfile
    exact .inr ⟨w₀, hdisk, fun r hr => (hrooms r hr).records hK⟩

theorem Room.Records.newest {talk : List PacketMessage} {rm : Room} (h : Room.Records env talk rm) {p : PacketMessage}
    (hp : talk.getLast? = some p) : p.id = decimal (rm.nextMessageId - 1).toNat := by
  have hlast := hp
  rw [List.getLast?_eq_getElem?] at hlast
  have hlen : 0 < talk.length := by
    cases talk with
    | nil => cases hp
    | cons => exact Nat.succ_pos _
  rw [h.id _ p hlast, h.nextMessageId, ← UInt32.toNat_ofNat']
  congr 2
  rw [UInt32.ofNat_sub hlen]
  rfl

end

/-- In every run the history of a room is the tail of the conversation in it, which has
consecutive ids, and is about nothing but public messages. -/
theorem run_history_tail (env : Env) (hmin : 0 ≤ env.maxHistory) (hmax : env.maxHistory < 2 ^ 31) (es : List Event) :
    let w := run env es
    ∀ r ∈ w.rooms,
      let talk := conversation env es (w.roomAt r).name
      let tail := talk.drop (talk.length - env.maxHistory.toNat)
      (w.roomAt r).history = tail.map (fun p => env.write p.serialize) ∧
        (∀ p ∈ talk, p.toId = 0 ∧ p.target = (w.roomAt r).name) ∧
        (∀ (i : Nat) (p : PacketMessage), talk[i]? = some p → p.id = decimal (i % 2 ^ 32 : Nat)) ∧
        (w.roomAt r).nextMessageId = UInt32.ofNat talk.length ∧
        ∀ p, talk.getLast? = some p → p.id = decimal ((w.roomAt r).nextMessageId - 1).toNat := by
  intro w r hr talk tail
  have h := (tells_run env ⟨hmin, hmax⟩ es).rooms r hr
  exact ⟨h.history, h.address, h.id, h.nextMessageId, fun p hp => h.newest hp⟩

def Sample.talks : List Event :=
  room ++ [sends 7 1 (line (utf8 "hello")), ⟨8, .save⟩, sends 9 2 (line (utf8 "/me waves"))]

theorem run_history_tail_two :
    let w := run Sample.surroundings Sample.talks
    (w.roomAt ⟨0⟩).history.length = 2 ∧ (w.roomAt ⟨0⟩).nextMessageId =
      UInt32.ofNat (conversation Sample.surroundings Sample.talks (w.roomAt ⟨0⟩).name).length := by
  intro w
  have h := run_history_tail Sample.surroundings (by decide) (by decide) Sample.talks ⟨0⟩ (by decide +kernel)
  exact ⟨by decide +kernel, h.2.2.2.1⟩

/-- What was said in the room since it was made, and after the state was saved, is not in the history of the
restored room. -/
theorem run_history_tail_restored :
    let w := run Sample.surroundings (Sample.talks ++ [⟨10, .restart⟩])
    let said := ((w.sent.filterMap fun x => x.2.publicMessage).filter fun p => p.target == (w.roomAt ⟨0⟩).name).dedup
    ⟨0⟩ ∈ w.rooms ∧ said.map PacketMessage.message = [utf8 "hello", utf8 "waves"] ∧
      (w.roomAt ⟨0⟩).history ≠ (said.drop (said.length - Sample.surroundings.maxHistory.toNat)).map fun p =>
        Sample.surroundings.write p.serialize := by
  decide +kernel

end WsChat
