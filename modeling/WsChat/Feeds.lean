import WsChat.Informed
import WsChat.History
import Mathlib.Data.List.Infix

/-! What a connection gets of the messages of a room: the history when its client comes to the room,
and then what is said there, with nothing lost or told twice in between. -/
namespace WsChat
open Lib Relation ClientsManager

/-- The lines of a room that came on a connection since the last answer to a join, and whether the last
list was of the room. -/
structure Hearing where
  listed : Bool := false
  lines : List Bytes := []

namespace Hearing

/-- The history comes after the list of its room. -/
def hear (env : Env) (name : Bytes) (h : Hearing) : Wire → Hearing
  | .raw line => if h.listed then { h with lines := h.lines ++ [line] } else h
  | .packet (.join p) => if p.target = name then {} else h
  | .packet (.onlineList p) => { h with listed := p.target = name }
  | .packet (.message p) =>
    if p.toId = 0 ∧ p.target = name then { h with lines := h.lines ++ [env.write p.serialize] } else h
  | _ => h

end Hearing

/-- The lines of the room of the name on a connection, since its client came to the room. -/
def World.received (env : Env) (w : World) (k : ConnectionPtr) (name : Bytes) : List Bytes :=
  ((feed k w.sent).foldl (Hearing.hear env name) {}).lines

def World.Hears (w : World) (k : ConnectionPtr) (r : RoomPtr) : Prop :=
  ∃ d, (w.clientAt d).connection = some k ∧ r ∈ (w.clientAt d).rooms

/-- The history of a room, and what its connections got of it, are the end of all that was said in it. -/
structure Fed (env : Env) (w : World) (talk : RoomPtr → List Bytes) : Prop where
  history : ∀ r ∈ w.rooms, (w.roomAt r).history <:+ talk r
  received : ∀ k r, w.Hears k r → w.received env k (w.roomAt r).name <:+ talk r

def Wire.Unvoiced : Wire → Prop
  | .raw _ | .packet (.join _) => False
  | .packet (.message p) => p.toId ≠ 0
  | _ => True

section
variable {env : Env} {w w' : World} {c d : ClientPtr} {k : ConnectionPtr} {r s : RoomPtr} {m : MemberPtr}
  {out : List (ConnectionPtr × Wire)} {x : Wire} {name : Bytes} {h : Hearing}

theorem Wire.Plain.unvoiced {S : Bytes → Prop} (hx : x.Plain S) : x.Unvoiced := by
  cases x with
  | raw => exact hx.elim
  | packet p =>
    cases p with
    | message | join => exact hx.elim
    | _ => trivial

theorem Wire.Unvoiced.lines (hx : x.Unvoiced) (h : Hearing) : (h.hear env name x).lines = h.lines := by
  cases x with
  | raw => exact hx.elim
  | packet p =>
    cases p with
    | join => exact hx.elim
    | message p => exact congrArg Hearing.lines (if_neg fun hp => hx hp.1)
    | _ => rfl

theorem Hearing.lines_unvoiced {l : List Wire} (hl : ∀ x ∈ l, x.Unvoiced) (h : Hearing) :
    (l.foldl (hear env name) h).lines = h.lines := by
  induction l generalizing h with
  | nil => rfl
  | cons x l ih =>
    have htail : ∀ y ∈ l, y.Unvoiced := fun y hy => hl y (List.mem_cons_of_mem x hy)
    rw [List.foldl_cons, ih htail, (hl x List.mem_cons_self).lines]

theorem Hearing.lines_raw (l : List Bytes) (h : Hearing) :
    ((l.map Wire.raw).foldl (hear env name) h).lines = if h.listed then h.lines ++ l else h.lines := by
  induction l generalizing h with
  | nil => simp
  | cons line l ih =>
    rw [List.map_cons, List.foldl_cons, ih]
    unfold hear
    by_cases hlisted : h.listed = true
    · simp [hlisted]
    · simp [hlisted]

theorem feed_mail : feed k (w.mail c x) = if (w.clientAt c).connection = some k then [x] else [] := by
  unfold World.mail feed
  cases (w.clientAt c).connection with
  | none => rfl
  | some k' =>
    by_cases hk : k' = k
    · simp [hk]
    · simp [hk]

theorem feed_welcomeMail {sequenceId : Option UInt32} {loadHistory : Bool} (hk : (w.clientAt c).connection = some k) :
    feed k (w.welcomeMail c r m sequenceId loadHistory) =
      .packet (.join (PacketJoin.ofMember w m sequenceId)) ::
        .packet (.onlineList (PacketOnlineList.ofRoom w r sequenceId)) ::
          (if loadHistory then (w.roomAt r).history else []).map Wire.raw := by
  unfold World.welcomeMail
  rw [feed_append, feed_append, feed_mail, feed_mail, if_pos hk, if_pos hk]
  cases loadHistory with
  | false => rfl
  | true =>
    rw [if_pos rfl, if_pos rfl, feed_flatMap]
    have hone : ∀ line ∈ (w.roomAt r).history, feed k (w.mail c (.raw line)) = [.raw line] := by
      intro line _
      rw [feed_mail, if_pos hk]
    rw [List.flatMap_congr hone, ← List.map_eq_flatMap]
    rfl

theorem feed_welcomeMail_other {sequenceId : Option UInt32} {loadHistory : Bool}
    (hk : (w.clientAt c).connection ≠ some k) : feed k (w.welcomeMail c r m sequenceId loadHistory) = [] := by
  rw [List.eq_nil_iff_forall_not_mem]
  intro x hx
  exact hk (World.mem_welcomeMail (mem_feed.mp hx)).1

theorem Hearing.lines_welcome {sequenceId : Option UInt32} {loadHistory : Bool} (hm : (w.memberAt m).room = r)
    (hk : (w.clientAt c).connection = some k) (h : Hearing) :
    ((feed k (w.welcomeMail c r m sequenceId loadHistory)).foldl (hear env name) h).lines =
      if (w.roomAt r).name = name then (if loadHistory then (w.roomAt r).history else []) else h.lines := by
  have hjoin : h.hear env name (.packet (.join (PacketJoin.ofMember w m sequenceId))) =
      if (w.roomAt r).name = name then {} else h := by
    rw [← hm]
    rfl
  have hlist : ∀ h' : Hearing, h'.hear env name (.packet (.onlineList (PacketOnlineList.ofRoom w r sequenceId))) =
      { h' with listed := (w.roomAt r).name = name } := fun _ => rfl
  rw [feed_welcomeMail hk, List.foldl_cons, List.foldl_cons, hjoin, hlist, lines_raw]
  by_cases hname : (w.roomAt r).name = name
  · simp [hname]
  · simp [hname]

theorem World.received_eq (hsent : w'.sent = w.sent ++ out) (k : ConnectionPtr) (name : Bytes) :
    w'.received env k name =
      ((feed k out).foldl (Hearing.hear env name) ((feed k w.sent).foldl (Hearing.hear env name) {})).lines := by
  unfold World.received
  rw [hsent, feed_append, List.foldl_append]

theorem World.received_unvoiced (hsent : w'.sent = w.sent ++ out) (hunvoiced : ∀ x, (k, x) ∈ out → x.Unvoiced) (name : Bytes) :
    w'.received env k name = w.received env k name := by
  rw [World.received_eq hsent, Hearing.lines_unvoiced fun x hx => hunvoiced x (mem_feed.mp hx)]
  rfl

theorem World.Hears.listed (hl : w.membership.Linked) (h : w.Hears k r) : r ∈ w.rooms := by
  obtain ⟨d, -, hr⟩ := h
  exact hl.listed_of_joined hr

theorem Evolves.hears {g : Registry} {ms : Membership ClientPtr RoomPtr MemberPtr Bytes} (he : Evolves w g ms w')
    (h : w'.Hears k r) : ∃ d, g.connection d = some k ∧ r ∈ ms.joined d := by
  rw [← he.registry, ← he.membership]
  exact h

theorem Frame.hears (hf : Frame w w') (h : w'.Hears k r) : w.Hears k r := Evolves.hears hf h

theorem Evolves.hears_expel (he : Evolves w w.registry (w.membership.expel s m) w') (h : w'.Hears k r) :
    w.Hears k r := by
  obtain ⟨d, hk, hr⟩ := he.hears h
  refine ⟨d, hk, ?_⟩
  by_cases hd : d = w.membership.who m
  · subst hd
    unfold Membership.expel at hr
    simp only [Function.update_self] at hr
    exact hr.1
  · unfold Membership.expel at hr
    simp only [Function.update_of_ne hd] at hr
    exact hr

variable {w₀ : World} {S : Bytes → Prop} {talk : RoomPtr → List Bytes}

theorem Fed.hushed (h : Fed env w talk) (hl : w.membership.Linked) (hush : Hushed w₀ w w')
    (hreceived : ∀ k r, w'.Hears k r →
      (w.Hears k r ∧ w'.received env k (w.roomAt r).name = w.received env k (w.roomAt r).name) ∨
      (r ∈ w.rooms ∧ w'.received env k (w.roomAt r).name <:+ (w.roomAt r).history)) : Fed env w' talk := by
  have hkept : ∀ r ∈ w.rooms, Room.SameLog (w.roomAt r) (w'.roomAt r) :=
    fun r hr => (hush.keeps r (hl.built r hr)).2
  constructor
  · intro r hr
    cases hush.rooms r hr with
    | inl hold =>
      rw [(hkept r hold).history]
      exact h.history r hold
    | inr hnew =>
      rw [hnew.history]
      exact List.nil_suffix
  · intro k r hk
    cases hreceived k r hk with
    | inl hold =>
      obtain ⟨hold, hsame⟩ := hold
      rw [(hkept r (hold.listed hl)).name, hsame]
      exact h.received k r hold
    | inr hnew =>
      obtain ⟨hr, hlines⟩ := hnew
      rw [(hkept r hr).name]
      exact hlines.trans (h.history r hr)

theorem Fed.muted (h : Fed env w talk) (hl : w.membership.Linked) (hush : Hushed w₀ w w')
    (hhears : ∀ k r, w'.Hears k r → w.Hears k r) (hsent : w'.sent = w.sent ++ out)
    (hunvoiced : ∀ x ∈ out, x.2.Unvoiced) : Fed env w' talk := by
  refine h.hushed hl hush fun k r hk => .inl ⟨hhears k r hk, ?_⟩
  exact World.received_unvoiced hsent (fun x hx => hunvoiced _ hx) _

theorem unvoiced_mail (hx : x.Unvoiced) : ∀ y ∈ w.mail c x, y.2.Unvoiced := by
  intro y hy
  rw [(World.mem_mail.mp hy).2]
  exact hx

theorem unvoiced_roomMail (hx : x.Unvoiced) : ∀ y ∈ w.roomMail r x, y.2.Unvoiced := by
  intro y hy
  rw [(World.mem_roomMail.mp hy).2]
  exact hx

theorem unvoiced_offlineMail : ∀ x ∈ w.offlineMail r m, x.2.Unvoiced := by
  intro x hx
  rw [World.offlineMail_status x hx]
  trivial

theorem unvoiced_nothing : ∀ x ∈ ([] : List (ConnectionPtr × Wire)), x.2.Unvoiced := by simp

theorem Hushed.not_say {p : PacketMessage} (hr : r ∈ w.membership.built) : ¬ Hushed w₀ w (Room.say env w r p) := by
  intro hush
  have hcount := (hush.keeps r hr).2.nextMessageId
  rw [Room.say_eq] at hcount
  simp at hcount

theorem Fed.quiet (h : Fed env w talk) (hw : WF env w) (hs : Seated w) (hush : Hushed w₀ w w')
    (hq : Quiet env c w₀ S w w') : Fed env w' talk := by
  have hl := hw.linked
  have hhears : ∀ k r, w'.Hears k r → w.Hears k r := fun _ _ hk => hq.frame.hears hk
  cases hq with
  | tell out hplain => exact h.muted hl hush hhears rfl fun x hx => (hplain x hx).unvoiced
  | list => exact h.muted hl hush hhears rfl (unvoiced_mail trivial)
  | touch => exact h.muted hl hush hhears (List.append_nil _).symm unvoiced_nothing
  | identify => exact h.muted hl hush hhears (List.append_nil _).symm unvoiced_nothing
  | say r m _ _ _ hm => exact absurd hush (Hushed.not_say (hl.built r (hl.listed r m hm)))
  | whisper r m m2 text _ _ _ _ hm2 =>
    have hprivate : (Wire.packet (.message (PacketMessage.ofMembers w m m2 text))).Unvoiced := hs.numbered r m2 hm2
    refine h.muted hl hush hhears rfl ?_
    intro x hx
    cases List.mem_append.mp hx with
    | inl hx => exact unvoiced_mail hprivate x hx
    | inr hx => exact unvoiced_mail hprivate x hx
  | presence | typing | rename => exact h.muted hl hush hhears rfl (unvoiced_roomMail trivial)
  | restyle r m girl color stat =>
    rw [Member.announce_eq] at hush hhears ⊢
    refine h.muted hl hush hhears rfl ?_
    intro x hx
    rw [World.announcement_status x hx]
    trivial
  | dress => exact h.muted hl hush hhears (List.append_nil _).symm unvoiced_nothing
  | ban => exact h.muted hl hush hhears (List.append_nil _).symm unvoiced_nothing
  | appoint => exact h.muted hl hush hhears (List.append_nil _).symm unvoiced_nothing

theorem Fed.kick (h : Fed env w talk) (hl : w.membership.Linked) (hush : Hushed w₀ w (Room.kickMember env w r m)) :
    Fed env (Room.kickMember env w r m) talk := by
  have hhears : ∀ k s, (Room.kickMember env w r m).Hears k s → w.Hears k s :=
    fun _ _ hk => Room.kickMember_evolves.hears_expel hk
  have hsent : (Room.kickMember env w r m).sent = w.sent ++ (w.offlineMail r m ++
      w.mail (w.memberAt m).client (.packet (.leave { target := (w.roomAt r).name }))) := by
    rw [Room.kickMember_eq]
    rfl
  refine h.muted hl hush hhears hsent ?_
  intro x hx
  cases List.mem_append.mp hx with
  | inl hx => exact unvoiced_offlineMail x hx
  | inr hx =>
    rw [(World.mem_mail.mp hx).2]
    trivial

theorem Fed.leave (h : Fed env w talk) (hl : w.membership.Linked) (hr : r ∈ (w.clientAt c).rooms)
    (hush : Hushed w₀ w (Client.leaveRoom env w c r)) : Fed env (Client.leaveRoom env w c r) talk := by
  obtain ⟨n, -, -, he⟩ := Client.leaveRoom_evolves env hl hr
  obtain ⟨m, hfind⟩ := Room.findMemberByClient_isSome hl hr
  have hsent : (Client.leaveRoom env w c r).sent = w.sent ++ w.offlineMail r m := by
    rw [Client.leaveRoom_eq hr hfind]
    rfl
  exact h.muted hl hush (fun _ _ hk => he.hears_expel hk) hsent unvoiced_offlineMail

theorem Fed.raze (h : Fed env w talk) (hl : w.membership.Linked) (hr : Server.getRoomByName w name = some r)
    (hush : Hushed w₀ w (Server.removeRoom env w name)) : Fed env (Server.removeRoom env w name) talk := by
  have hev : Evolves w w.registry (w.membership.raze r) (Server.removeRoom env w name) :=
    Server.removeRoom_evolves hl hr
  obtain ⟨info, out, hout, he⟩ := Server.removeRoom_eq env hl hr
  have hsent : (Server.removeRoom env w name).sent = w.sent ++ out := by rw [he]
  refine h.muted hl hush ?_ hsent ?_
  · intro k s hk
    obtain ⟨d, hdk, hs⟩ := hev.hears hk
    exact ⟨d, hdk, hs.1⟩
  · intro x hx
    cases hout x hx with
    | inl hgone =>
      obtain ⟨m, -, hxe⟩ := hgone
      rw [hxe]
      trivial
    | inr hleave =>
      rw [hleave]
      trivial

theorem World.sent_withdraw (w : World) (c : ClientPtr) :
    ∃ out, (w.withdraw c).sent = w.sent ++ out ∧ ∀ x ∈ out, x.2.Unvoiced := by
  refine ⟨_, rfl, ?_⟩
  intro x hx
  obtain ⟨r, -, hx⟩ := List.mem_flatMap.mp hx
  obtain ⟨n, -, hx⟩ := World.mem_farewell hx
  exact unvoiced_offlineMail x hx

theorem World.hears_withdraw (h : (w.withdraw c).Hears k r) : w.Hears k r := by
  obtain ⟨d, hk, hr⟩ := h
  have hdc : d ≠ c := by
    rintro rfl
    simp [World.withdraw] at hk
  refine ⟨d, ?_, ?_⟩
  · simpa [World.withdraw, hdc] using hk
  · simpa [World.withdraw, hdc] using hr

theorem Fed.drop (h : Fed env w talk) (hl : w.membership.Linked) (hush : Hushed w₀ w (remove env w c)) :
    Fed env (remove env w c) talk := by
  have hnormal : ∃ manager clamped, remove env w c =
      { w.withdraw c with manager := manager, clamped := clamped } := remove_normal hl
  obtain ⟨manager, clamped, he⟩ := hnormal
  obtain ⟨out, hsent, hunvoiced⟩ := World.sent_withdraw w c
  rw [he] at hush ⊢
  exact h.muted hl hush (fun _ _ hk => World.hears_withdraw hk) hsent hunvoiced

theorem Fed.enter (h : Fed env w talk) (hw : WF env w) {id : UInt32} {sequenceId : Option UInt32} {loadHistory : Bool}
    (hr : r ∈ w.rooms) :
    let w' := w.enter c r id
    let out := w'.welcomeMail c r ⟨w.nextMember⟩ sequenceId loadHistory
    Hushed w₀ w (w'.emit out) → Fed env (w'.emit out) talk := by
  intro w' out hush
  have hl := hw.linked
  have he : Evolves w w.registry _ w' := enter_evolves w c r id
  have hconn : (w'.clientAt c).connection = (w.clientAt c).connection :=
    congrFun (congrArg Registry.connection he.registry) c
  have hself : (w'.memberAt ⟨w.nextMember⟩).room = r := by
    rw [World.memberAt_enter_new]
  have hroom : (w'.roomAt r).name = (w.roomAt r).name ∧ (w'.roomAt r).history = (w.roomAt r).history := by
    simp [w', World.enter]
  have hrooms : ∀ d s, s ∈ (w'.clientAt d).rooms → s ∈ (w.clientAt d).rooms ∨ (d = c ∧ s = r) := by
    intro d s hs
    by_cases hd : d = c
    · subst hd
      by_cases hsr : s = r
      · exact .inr ⟨rfl, hsr⟩
      · exact .inl (by simpa [w', World.enter, hsr] using hs)
    · exact .inl (by simpa [w', World.enter, hd] using hs)
  have hsent : (w'.emit out).sent = w.sent ++ out := rfl
  refine h.hushed hl hush ?_
  intro k s hk
  obtain ⟨d, hdk, hs⟩ := hk
  have hdk' : (w.clientAt d).connection = some k :=
    (congrFun (congrArg Registry.connection he.registry) d).symm.trans hdk
  by_cases hck : (w.clientAt c).connection = some k
  · have hlines : ∀ name h', ((feed k out).foldl (Hearing.hear env name) h').lines =
        if (w.roomAt r).name = name then (if loadHistory then (w.roomAt r).history else []) else h'.lines := by
      intro name h'
      rw [← hroom.1, ← hroom.2]
      exact Hearing.lines_welcome hself (hconn.trans hck) h'
    by_cases hsr : s = r
    · subst hsr
      refine .inr ⟨hr, ?_⟩
      rw [World.received_eq hsent, hlines, if_pos rfl]
      cases loadHistory with
      | false => exact List.nil_suffix
      | true => exact List.suffix_rfl
    · have hsd : s ∈ (w.clientAt d).rooms := (hrooms d s hs).resolve_right fun hnew => hsr hnew.2
      have hne : (w.roomAt r).name ≠ (w.roomAt s).name :=
        fun hn => hsr (hl.names s (hl.listed_of_joined hsd) r hr hn.symm)
      refine .inl ⟨⟨d, hdk', hsd⟩, ?_⟩
      rw [World.received_eq hsent, hlines, if_neg hne]
      rfl
  · have hd : d ≠ c := by
      rintro rfl
      exact hck hdk'
    have hsd : s ∈ (w.clientAt d).rooms := (hrooms d s hs).resolve_right fun hnew => hd hnew.1
    refine .inl ⟨⟨d, hdk', hsd⟩, ?_⟩
    have hnothing : feed k out = [] := feed_welcomeMail_other (by rw [hconn]; exact hck)
    rw [World.received_eq hsent, hnothing]
    rfl

theorem Fed.orphan (h : Fed env w talk) (hw : WF env w) (hc : c ∈ w.manager.clients)
    (hush : Hushed w₀ w (makeOrphan env w c)) : Fed env (makeOrphan env w c) talk := by
  have hl := hw.linked
  have hev : Evolves w (w.registry.unlink c) w.membership (makeOrphan env w c) :=
    makeOrphan_evolves hw.indexed hl hc
  cases hck : (w.clientAt c).connection with
  | none =>
    have hsame : makeOrphan env w c = w := by
      unfold makeOrphan
      rw [hck]
    rwa [hsame]
  | some k₀ =>
    obtain ⟨manager, clamped, he⟩ := makeOrphan_normal hw.indexed hl hc hck
    have hhears : ∀ k s, (makeOrphan env w c).Hears k s → w.Hears k s := by
      intro k s hk
      obtain ⟨d, hdk, hs⟩ := hev.hears hk
      refine ⟨d, ?_, hs⟩
      rw [Registry.unlink_connection] at hdk
      by_cases hd : d = c
      · subst hd
        simp at hdk
      · rw [Function.update_of_ne hd] at hdk
        exact hdk
    rw [he] at hush hhears ⊢
    refine h.muted hl hush hhears rfl ?_
    intro x hx
    obtain ⟨r, -, hx⟩ := List.mem_flatMap.mp hx
    unfold World.orphanMail at hx
    split at hx
    · split at hx
      · rw [(World.mem_roomMail.mp hx).2]
        trivial
      · cases hx
    · cases hx

theorem Hearing.lines_homecoming {n : MemberPtr} (hn : Room.findMemberByClient w r c = some n)
    (hhome : (w.memberAt n).room = r) (hk : (w.clientAt c).connection = some k) (h : Hearing) :
    ((feed k (w.homecoming c r)).foldl (hear env name) h).lines =
      if (w.roomAt r).name = name then (w.roomAt r).history else h.lines := by
  unfold World.homecoming
  rw [hn, feed_append, List.foldl_append, lines_unvoiced, lines_welcome hhome hk]
  · rfl
  · intro x hx
    have hback := mem_feed.mp hx
    split at hback
    · rw [(World.mem_roomMail.mp hback).2]
      trivial
    · cases hback

theorem Hearing.lines_homecomings {l : List RoomPtr} (hk : (w.clientAt c).connection = some k)
    (hfind : ∀ r ∈ l, ∃ n, Room.findMemberByClient w r c = some n ∧ (w.memberAt n).room = r)
    (hnames : ∀ r ∈ l, (w.roomAt r).name = (w.roomAt s).name → r = s) (h : Hearing) :
    ((feed k (l.flatMap (w.homecoming c))).foldl (hear env (w.roomAt s).name) h).lines =
      if s ∈ l then (w.roomAt s).history else h.lines := by
  induction l generalizing h with
  | nil => simp [feed]
  | cons r l ih =>
    obtain ⟨n, hn, hhome⟩ := hfind r List.mem_cons_self
    rw [List.flatMap_cons, feed_append, List.foldl_append,
      ih (fun r' hr' => hfind r' (List.mem_cons_of_mem r hr')) (fun r' hr' => hnames r' (List.mem_cons_of_mem r hr')),
      lines_homecoming hn hhome hk]
    by_cases hrs : r = s
    · subst hrs
      simp
    · have hne : (w.roomAt r).name ≠ (w.roomAt s).name := fun he => hrs (hnames r List.mem_cons_self he)
      simp [hne, Ne.symm hrs]

theorem Fed.revive (h : Fed env w talk) (hw : WF env w) {t : ClientPtr} {k₀ : ConnectionPtr}
    (hc : c ∈ w.manager.clients) (ht : t ∈ w.manager.clients) (hct : c ≠ t)
    (hck : (w.clientAt c).connection = some k₀) (hush : Hushed w₀ w (Server.reviveClient env w c t).1) :
    Fed env (Server.reviveClient env w c t).1 talk := by
  have hl := hw.linked
  have hev := (reviveClient_evolves hw.indexed hl hc ht hct hck).then_frame (Server.reviveClient_frame w c t)
  have hl' : (Server.reviveClient env w c t).1.membership.Linked := hev.membership ▸ hl.withdraw
  obtain ⟨manager, clamped, closing, he⟩ := Server.reviveClient_normal env hl hct hck
  rw [he] at hush hl' ⊢
  dsimp only at hush hl' ⊢
  generalize hw' : ({ ((w.withdraw c).plug env t k₀).settle t (w.clientAt t).rooms.elems .online with
    manager := manager, clamped := clamped, closing := closing } : World) = w' at hush hl' ⊢
  have hclient : w'.clientAt = ((w.withdraw c).plug env t k₀).clientAt := by rw [← hw']; rfl
  obtain ⟨gone, hgone, hunvoiced⟩ := World.sent_withdraw w c
  generalize hback : (w.clientAt t).rooms.elems.flatMap (w'.homecoming t) = back at hush hl' ⊢
  have hsent : (w'.emit back).sent = w.sent ++ (gone ++ back) := by
    rw [World.emit_sent, ← List.append_assoc, ← hgone, ← hw']
    rfl
  have hself : (w'.clientAt t).connection = some k₀ ∧ (w'.clientAt t).rooms = (w.clientAt t).rooms := by
    rw [hclient]
    simp [World.plug, World.withdraw, Ne.symm hct]
  have hfind : ∀ r ∈ (w.clientAt t).rooms.elems, ∃ n, Room.findMemberByClient w' r t = some n ∧
      (w'.memberAt n).room = r := by
    intro r hr
    have hrt : r ∈ (w'.clientAt t).rooms := by
      rw [hself.2]
      exact IterSet.mem_elems.mp hr
    obtain ⟨n, hn⟩ := Room.findMemberByClient_isSome hl' hrt
    exact ⟨n, hn, hl'.home r n (Room.mem_of_findMemberByClient hn).1⟩
  refine h.hushed hl hush ?_
  intro k s hk
  obtain ⟨d, hdk, hsd⟩ := hk
  change (w'.clientAt d).connection = some k at hdk
  change s ∈ (w'.clientAt d).rooms at hsd
  by_cases hdt : d = t
  · subst hdt
    have hkk : k₀ = k := Option.some.inj (hself.1.symm.trans hdk)
    subst hkk
    rw [hself.2] at hsd
    have hsr : s ∈ w.rooms := hl.listed_of_joined hsd
    obtain ⟨-, hlog⟩ := hush.keeps s (hl.built s hsr)
    have hnames : ∀ r ∈ (w.clientAt d).rooms.elems, (w'.roomAt r).name = (w'.roomAt s).name → r = s := by
      intro r hr hname
      have hlisted : ∀ r ∈ (w.clientAt d).rooms, r ∈ (w'.emit back).rooms := by
        intro r hr
        refine hl'.listed_of_joined (c := d) ?_
        change r ∈ (w'.clientAt d).rooms
        rw [hself.2]
        exact hr
      exact hl'.names r (hlisted r (IterSet.mem_elems.mp hr)) s (hlisted s hsd) hname
    refine .inr ⟨hsr, ?_⟩
    have hname : (w'.roomAt s).name = (w.roomAt s).name := hlog.name
    have hhistory : (w'.roomAt s).history = (w.roomAt s).history := hlog.history
    rw [World.received_eq hsent, feed_append, List.foldl_append, ← hback, ← hname,
      Hearing.lines_homecomings hdk hfind hnames, if_pos (IterSet.mem_elems.mpr hsd), hhistory]
  · have hdc : d ≠ c := by
      rintro rfl
      rw [hclient] at hdk
      simp [World.plug, World.withdraw, hct] at hdk
    have hsame : w'.clientAt d = w.clientAt d := by
      rw [hclient]
      simp [World.plug, World.withdraw, hdt, hdc]
    rw [hsame] at hdk hsd
    have hne : k ≠ k₀ := by
      rintro rfl
      exact hdc (World.holder_unique hw hc hck hdk hsd)
    refine .inl ⟨⟨d, hdk, hsd⟩, ?_⟩
    refine World.received_unvoiced hsent ?_ _
    intro x hx
    cases List.mem_append.mp hx with
    | inl hx => exact hunvoiced _ hx
    | inr hx =>
      rw [← hback] at hx
      obtain ⟨r, hr, hx⟩ := List.mem_flatMap.mp hx
      obtain ⟨n, hn, -⟩ := hfind r hr
      cases World.mem_homecoming hn hx with
      | inl hwelcome =>
        have hkt := (World.mem_welcomeMail hwelcome).1
        rw [hself.1] at hkt
        exact absurd (Option.some.inj hkt).symm hne
      | inr htold =>
        rw [(World.mem_roomMail.mp htold.2).2]
        trivial

theorem Fed.move (h : Fed env w talk) (hw : WF env w) (hs : Seated w) (hush : Hushed w₀ w w')
    (hm : Move env c w₀ S w w') : Fed env w' talk := by
  have hl := hw.linked
  cases hm with
  | quiet hq => exact h.quiet hw hs hush hq
  | hang => exact h.muted hl hush (fun _ _ hk => hk) (List.append_nil _).symm unvoiced_nothing
  | issue r id =>
    have hev := issue_evolves w c r id
    exact h.muted hl hush (fun _ _ hk => hev.hears hk) (List.append_nil _).symm unvoiced_nothing
  | enter r id sequenceId loadHistory _ _ hr => exact h.enter hw hr hush
  | leave r _ hr => exact h.leave hl hr hush
  | kick r m => exact h.kick hl hush
  | banKick r m nick =>
    have hf : Frame w (w.modifyRoom r fun rm => { rm with bannedNicks := rm.bannedNicks.insert nick }) :=
      Frame.modifyRoom w r _ rfl rfl
    have hsent := Room.kickMember_eq env
      (w.modifyRoom r fun rm => { rm with bannedNicks := rm.bannedNicks.insert nick }) r m
    refine h.muted hl hush ?_ (congrArg World.sent hsent) ?_
    · intro k s hk
      exact hf.hears (Room.kickMember_evolves.hears_expel hk)
    · intro x hx
      cases List.mem_append.mp hx with
      | inl hx => exact unvoiced_offlineMail x hx
      | inr hx =>
        rw [(World.mem_mail.mp hx).2]
        trivial
  | create name =>
    have hf : Frame (w.found name) ((w.found name).modifyRoom ⟨w.nextRoom⟩ fun rm =>
      { rm with ownerId := (w.clientAt c).uid }) := Frame.modifyRoom _ _ _ rfl rfl
    have hev := found_evolves w name
    refine h.muted hl hush ?_ (List.append_nil _).symm unvoiced_nothing
    exact fun _ _ hk => hev.hears (hf.hears hk)
  | raze r name _ hr => exact h.raze hl hr hush
  | revive t k p _ hc ht hct hk hp =>
    have hf : Frame w (w.emit [(k, .packet p)]) := Frame.emit w _
    have hanswer : ∀ x ∈ [(k, Wire.packet p)], x.2.Plain S := by
      intro x hx
      rw [List.mem_singleton.mp hx]
      exact hp
    have hush₁ : Hushed w w (w.emit [(k, .packet p)]) :=
      .of_frame hf (fun _ => .rfl) rfl fun x hx => Wire.publicMessage_eq_none (hanswer x hx).not_speech
    have htold : Fed env (w.emit [(k, .packet p)]) talk :=
      h.muted hl hush₁ (fun _ _ hk => hf.hears hk) rfl fun x hx => (hanswer x hx).unvoiced
    have hw' : WF env (w.emit [(k, .packet p)]) := hw.frame hf
    have hgone : Hushed w (w.emit [(k, .packet p)]) (Server.reviveClient env (w.emit [(k, .packet p)]) c t).1 :=
      .of_thins (.reviveClient _ c t) ((reviveClient_evolves hw'.indexed hw'.linked hc ht hct hk).then_frame
        (Server.reviveClient_frame _ c t)) rfl fun _ hs => hs
    exact htold.revive hw' hc ht hct hk hgone

theorem foldl_roomMail {σ : Type*} {f : σ → Wire → σ} (hw : WF env w) (hk : w.Hears k r) (x : Wire) (st : σ) :
    (feed k (w.roomMail r x)).foldl f st = f st x := by
  have hl := hw.linked
  obtain ⟨d, hdk, hr⟩ := hk
  obtain ⟨n, hn, hnd⟩ := (hl.joinedIff d r).mp hr
  have hclient : (w.memberAt n).client = d := hnd
  unfold World.roomMail
  rw [feed_flatMap, foldl_flatMap_one (w.roomAt r).members.nodup (IterSet.mem_elems.mpr hn)]
  · rw [feed_mail, hclient, if_pos hdk]
    rfl
  · intro n' hn' hne a ha
    rw [feed_mail] at ha
    split at ha
    · rename_i hk'
      have hin' : n' ∈ (w.roomAt r).members := IterSet.mem_elems.mp hn'
      have hr' : r ∈ (w.clientAt (w.memberAt n').client).rooms := (hl.joinedIff _ r).mpr ⟨n', hin', rfl⟩
      have hsame : (w.memberAt n').client = d :=
        World.holder_unique hw (hl.registered_of_joined hr) hdk hk' hr'
      exact absurd (hl.unique r n' hin' n hn (hsame.trans hclient.symm)) hne
    · cases ha

/-- What a member says reaches the connections of its room, each once, and the history. -/
theorem Fed.say (h : Fed env w talk) (hw : WF env w) (hr : r ∈ w.rooms) {p : PacketMessage} (hto : p.toId = 0)
    (htarget : p.target = (w.roomAt r).name) :
    Fed env (Room.say env w r p) (Function.update talk r
      (talk r ++ [env.write (p.numbered (w.roomAt r).nextMessageId).serialize])) := by
  have hl := hw.linked
  set line := env.write (p.numbered (w.roomAt r).nextMessageId).serialize
  set said := Wire.packet (.message (p.numbered (w.roomAt r).nextMessageId))
  have hsent : (Room.say env w r p).sent = w.sent ++ w.roomMail r said := by
    rw [Room.say_eq]
    rfl
  have hself : ((Room.say env w r p).roomAt r).name = (w.roomAt r).name ∧ ((Room.say env w r p).roomAt r).history =
      Room.trimHistory env.maxHistory ((w.roomAt r).history ++ [line]) := by
    rw [Room.say_eq]
    simp [hto, line]
  have hother : ∀ s, s ≠ r → (Room.say env w r p).roomAt s = w.roomAt s := by
    intro s hsr
    rw [Room.say_eq]
    simp [hsr]
  have hhear : ∀ name h', Hearing.hear env name h' said =
      if (w.roomAt r).name = name then { h' with lines := h'.lines ++ [line] } else h' := by
    intro name h'
    have hsaid : Hearing.hear env name h' said =
        if p.toId = 0 ∧ p.target = name then { h' with lines := h'.lines ++ [line] } else h' := rfl
    rw [hsaid, hto, htarget]
    simp
  constructor
  · intro s hs
    have hsw : s ∈ w.rooms := by
      rw [Room.say_eq] at hs
      exact hs
    by_cases hsr : s = r
    · subst hsr
      rw [Function.update_self, hself.2, Room.trimHistory_eq]
      exact (List.drop_suffix _ _).trans (List.suffix_append_self_iff.mpr (h.history s hsw))
    · rw [Function.update_of_ne hsr, hother s hsr]
      exact h.history s hsw
  · intro k s hk
    have hold : w.Hears k s := by
      rw [Room.say_eq] at hk
      exact hk
    have hlines : w.received env k (w.roomAt s).name <:+ talk s := h.received k s hold
    by_cases hsr : s = r
    · subst hsr
      rw [Function.update_self, hself.1, World.received_eq hsent, foldl_roomMail hw hold, hhear, if_pos rfl]
      exact List.suffix_append_self_iff.mpr hlines
    · have hne : (w.roomAt r).name ≠ (w.roomAt s).name :=
        fun hn => hsr (hl.names s (hold.listed hl) r hr hn.symm)
      rw [Function.update_of_ne hsr, hother s hsr, World.received_eq hsent, foldl_idle]
      · exact hlines
      · intro a ha h'
        rw [(World.mem_roomMail.mp (mem_feed.mp ha)).2, hhear, if_neg hne]

theorem Fed.connect (h : Fed env w talk) (k : ConnectionPtr) (draws : List Token) : Fed env (connect env w k draws) talk := by
  unfold ClientsManager.connect
  split
  · exact ⟨h.history, h.received⟩
  · refine ⟨h.history, ?_⟩
    intro k' r hk
    refine h.received k' r ?_
    obtain ⟨d, hdk, hr⟩ := hk
    by_cases hd : d = ⟨w.nextClient⟩
    · subst hd
      simp [Client.setConnection] at hr
    · simp only [Client.setConnection] at hdk hr
      refine ⟨d, ?_, ?_⟩
      · simpa [hd] using hdk
      · simpa [hd] using hr

theorem Fed.routine (h : Fed env w talk) (hw : WF env w) (hr : Routine env w w') : Fed env w' talk := by
  have hl := hw.linked
  have hush : Hushed w w w' := hr.hushed hw
  cases hr with
  | clock => exact h.muted hl hush (fun _ _ hk => hk) (List.append_nil _).symm unvoiced_nothing
  | opening k draws =>
    have harrival : Fed env (w.arrival env k) talk := ⟨h.history, h.received⟩
    rcases Server.onOpen_cases env hw k draws with ⟨-, he⟩ | ⟨-, ⟨-, he⟩ | ⟨c, hc, -, hck, -, he⟩⟩
    · rw [he]
      exact ⟨h.history, h.received⟩
    · rw [he]
      exact harrival.connect k draws
    · rw [he]
      have hl' : (w.arrival env k).membership.Linked := hl
      have hev := remove_orphan_evolves (World.arrival_indexed (k := k) hw) hl' hc hck
      have hgone : Hushed w (w.arrival env k) (remove env (w.arrival env k) c) :=
        .of_thins (.remove _ c) hev rfl fun _ hr => hr
      exact (harrival.drop hl' hgone).connect k draws
  | ping c =>
    rw [Client.sendPacket_eq] at hush ⊢
    exact h.muted hl hush (fun _ _ hk => hk) rfl (unvoiced_mail trivial)
  | mark => exact h.muted hl hush (fun _ _ hk => hk) (List.append_nil _).symm unvoiced_nothing
  | orphan c hc => exact h.orphan hw hc hush
  | drop c => exact h.drop hl hush

theorem Fed.routines (h : Fed env w talk) (hw : WF env w) (hr : Routines env w w') : Fed env w' talk := by
  induction hr with
  | refl => exact h
  | tail hs hr ih => exact ih.routine (hw.routines hs) hr

/-- The lines of the conversation in a room. -/
def Talk.lines (env : Env) (t : Talk) (w : World) (r : RoomPtr) : List Bytes :=
  (t.live (w.roomAt r).name).map fun p => env.write p.serialize

variable {talk' : RoomPtr → List Bytes} {t : Talk}

theorem Fed.congr (h : Fed env w talk) (hl : w.membership.Linked) (he : ∀ r ∈ w.rooms, talk r = talk' r) :
    Fed env w talk' := by
  refine ⟨fun r hr => ?_, fun k r hk => ?_⟩
  · rw [← he r hr]
    exact h.history r hr
  · rw [← he r (hk.listed hl)]
    exact h.received k r hk

def Talk.opening (env : Env) (t : Talk) (w : World) (r : RoomPtr) : List Bytes :=
  if r ∈ w.rooms then t.lines env w r else []

theorem Fed.opening (h : Fed env w (t.lines env w)) (hl : w.membership.Linked) : Fed env w (t.opening env w) :=
  h.congr hl fun _ hr => (if_pos hr).symm

theorem Talk.lines_old (hr : r ∈ w.rooms) (hname : (w'.roomAt r).name = (w.roomAt r).name) :
    (t.listen w w').lines env w' r =
      t.opening env w r ++ (w.heardIn w' (w.roomAt r).name).map fun p => env.write p.serialize := by
  unfold Talk.lines Talk.opening
  rw [hname, Talk.listen_old hr, List.map_append, if_pos hr]
  rfl

theorem Talk.lines_new (hr : r ∉ w.rooms) (hnew : w.NewRoom w' r) :
    (t.listen w w').lines env w' r = t.opening env w r := by
  unfold Talk.lines Talk.opening
  rw [Talk.listen_new hnew.free, if_neg hr]
  rfl

theorem Fed.silent (h : Fed env w' (t.opening env w)) (hl : w.membership.Linked) (hl' : w'.membership.Linked)
    (hush : Hushed w w w') : Fed env w' ((t.listen w w').lines env w') := by
  refine h.congr hl' fun r hr => ?_
  by_cases hold : r ∈ w.rooms
  · rw [Talk.lines_old hold (hush.keeps r (hl.built r hold)).2.name, hush.heardIn, List.map_nil, List.append_nil]
  · rw [Talk.lines_new hold ((hush.rooms r hr).resolve_left hold)]

theorem World.name_said {w₁ : World} {p : PacketMessage} (hl : w.membership.Linked) (hcalm : Calm w w₁)
    (hnow : Hushed w w w₁) (h : Hushed w (Room.say env w₁ r p) w') (hs : s ∈ w.rooms) :
    (w'.roomAt s).name = (w.roomAt s).name := by
  have hsay := Room.say_eq env w₁ r p
  have hbuilt : s ∈ (Room.say env w₁ r p).membership.built := by
    rw [hsay]
    exact (hnow.keeps s (hl.built s hs)).1
  have hname : ((Room.say env w₁ r p).roomAt s).name = (w.roomAt s).name := by
    rw [hsay, ← hcalm.roomAt]
    by_cases hsr : s = r
    · subst hsr
      simp
    · simp [hsr]
  exact (h.keeps s hbuilt).2.name.trans hname

theorem World.rooms_said {w₁ : World} {p : PacketMessage} (hcalm : Calm w w₁)
    (h : Hushed w (Room.say env w₁ r p) w') (hs : s ∈ w'.rooms) : s ∈ w.rooms ∨ w.NewRoom w' s := by
  refine (h.rooms s hs).imp_left fun hin => ?_
  rw [Room.say_eq] at hin
  rw [← hcalm.rooms]
  exact hin

theorem Steps.fed (hw : WF env w) (hs : Seated w) (hfed : Fed env w talk) (h : Steps env c w S w w') :
    (Hushed w w w' ∧ Fed env w' talk) ∨
      ∃ r m style text w₁, m ∈ (w.roomAt r).members ∧ (w.memberAt m).client = c ∧ Calm w w₁ ∧ Hushed w w w₁ ∧
        Hushed w (Room.say env w₁ r { PacketMessage.ofMember w₁ m text with style := style }) w' ∧
        Fed env w' (Function.update talk r
          (talk r ++ [env.write (w₁.spoken r m style text).serialize])) := by
  induction h with
  | refl => exact .inl ⟨.refl w w, hfed⟩
  | @tail w₁ w₂ hsteps hmove ih =>
    have hw₁ : WF env w₁ := hw.steps hsteps
    have hs₁ : Seated w₁ := hs.steps hw hsteps
    cases hmove.speech hw₁ hs₁ with
    | inl hush =>
      cases ih with
      | inl h =>
        obtain ⟨hnow, hfed₁⟩ := h
        exact .inl ⟨hnow.trans hw₁.linked hush, hfed₁.move hw₁ hs₁ hush hmove⟩
      | inr h =>
        obtain ⟨r, m, style, text, w₃, hm, hc, hcalm, hnow, hsaid, hfed₁⟩ := h
        exact .inr ⟨r, m, style, text, w₃, hm, hc, hcalm, hnow, hsaid.trans hw₁.linked hush,
          hfed₁.move hw₁ hs₁ hush hmove⟩
    | inr hsays =>
      cases hsays with
      | say r m style text hm hc _ hcalm =>
        cases ih with
        | inl h =>
          obtain ⟨hnow, hfed₁⟩ := h
          have htarget : (PacketMessage.ofMember w₁ m text).target = (w₁.roomAt r).name := by
            have hhome : (w₁.memberAt m).room = r := hw₁.linked.home r m hm
            rw [← hhome]
            rfl
          have hsaid := hfed₁.say hw₁ (hw₁.linked.listed r m hm)
            (p := { PacketMessage.ofMember w₁ m text with style := style }) rfl htarget
          rw [hcalm.roomAt] at hm
          rw [hcalm.memberAt] at hc
          exact .inr ⟨r, m, style, text, w₁, hm, hc, hcalm, hnow, .refl w _, hsaid⟩
        | inr h =>
          obtain ⟨r', m', _, _, w₃, hm', -, hcalm', hnow, hsaid, -⟩ := h
          have hr : r' ∈ w₃.membership.built := (hnow.keeps r' (hw.linked.built r' (hw.linked.listed r' m' hm'))).1
          exact absurd hcalm (Says.last hr hcalm' hsaid)

theorem Fed.packet (h : Fed env w (t.lines env w)) (hw : WF env w) (hs : Seated w)
    (hk : (w.clientAt c).connection = some k) (hsteps : Steps env c w S w w') :
    Fed env w' ((t.listen w w').lines env w') := by
  have hl := hw.linked
  have hl' : w'.membership.Linked := (hw.steps hsteps).linked
  cases hsteps.fed hw hs (h.opening hl) with
  | inl hnothing => exact hnothing.2.silent hl hl' hnothing.1
  | inr hspoke =>
    obtain ⟨r, m, style, text, w₁, hm, rfl, hcalm, hnow, hsaid, hfed⟩ := hspoke
    have htarget : (w₁.spoken r m style text).target = (w.roomAt r).name := World.spoken_target hl hm hcalm
    have hr : r ∈ w.rooms := hl.listed r m hm
    refine hfed.congr hl' fun s hs => ?_
    by_cases hold : s ∈ w.rooms
    · rw [Talk.lines_old hold (World.name_said hl hcalm hnow hsaid hold), World.heardIn_said hm hk hcalm hsaid, htarget]
      by_cases hsr : s = r
      · subst hsr
        simp
      · have hne : (w.roomAt r).name ≠ (w.roomAt s).name := fun hn => hsr (hl.names s hold r hr hn.symm)
        simp [hsr, hne]
    · have hsr : s ≠ r := fun he => hold (he ▸ hr)
      rw [Talk.lines_new hold ((World.rooms_said hcalm hsaid hs).resolve_left hold), Function.update_of_ne hsr]

theorem Fed.restart (ht : t.Logs env w) (hw : WF env w) :
    Fed env w.restart (Talk.lines env { t with live := t.saved } w.restart) := by
  constructor
  · intro r hr
    have hlog := (ht.restart hw).rooms r hr
    rw [hlog.history, map_rtake]
    exact List.drop_suffix _ _
  · intro k r hk
    obtain ⟨d, -, hr⟩ := hk
    obtain ⟨m, hm, -⟩ := (hw.restart.linked.joinedIff d r).mp hr
    have hnone : m ∈ (∅ : IterSet MemberPtr) := World.restart_members hw r ▸ hm
    exact absurd hnone (IterSet.not_mem_empty m)

theorem Fed.step (h : Fed env w (t.lines env w)) (ht : t.Logs env w) (hw : WF env w) (hs : Seated w) (e : Event) :
    Fed env (w.step env e) ((t.step w (w.step env e) e.act).lines env (w.step env e)) := by
  obtain ⟨now, act⟩ := e
  have hw₀ : WF env { w with now := now } := hw.chore (.clock now)
  have hs₀ : Seated { w with now := now } := hs.chore hw (.clock now)
  have ht₀ : t.Logs env { w with now := now } := ⟨ht.rooms, ht.disk⟩
  have h₀ : Fed env { w with now := now } (t.lines env { w with now := now }) := ⟨h.history, h.received⟩
  by_cases hact : act = .save ∨ act = .restart
  · obtain rfl | rfl := hact
    · rw [World.step_save]
      exact ⟨h.history, h.received⟩
    · rw [World.step_restart]
      exact Fed.restart ht₀ hw₀
  · dsimp only
    rw [Talk.step_listen t now hact]
    cases World.step_heard hw ⟨now, act⟩ hact with
    | inl hr =>
      have hl' : (w.step env ⟨now, act⟩).membership.Linked := (hw.step ⟨now, act⟩).linked
      exact ((h₀.opening hw₀.linked).routines hw₀ hr).silent hw₀.linked hl' (hr.hushed hw₀)
    | inr hp =>
      obtain ⟨c, k, hk, hp⟩ := hp
      exact h₀.packet hw₀ hs₀ hk hp

theorem fed_run (env : Env) (es : List Event) : Fed env (run env es) ((runTalk env es).2.lines env (run env es)) := by
  rw [← runTalk_fst]
  refine (foldl_invariant (P := fun s : World × Talk =>
    WF env s.1 ∧ Seated s.1 ∧ s.2.Logs env s.1 ∧ Fed env s.1 (s.2.lines env s.1)) _ ?_ es ?_).2.2.2
  · intro s e h
    obtain ⟨hw, hs, ht, hfed⟩ := h
    exact ⟨hw.step e, hs.step hw e, ht.step hw hs e, hfed.step ht hw hs e⟩
  · refine ⟨WF.init, Seated.init env, ⟨fun r hr => absurd hr (IterSet.not_mem_empty r), .inl rfl⟩, ?_, ?_⟩
    · exact fun r hr => absurd hr (IterSet.not_mem_empty r)
    · intro k r hk
      obtain ⟨d, hdk, -⟩ := hk
      cases hdk

theorem World.step_public (hw : WF env w) (hs : Seated w) (e : Event) {x : ConnectionPtr × Wire}
    (hx : x ∈ (w.step env e).sent.drop w.sent.length) {p : PacketMessage} (hp : x.2.publicMessage = some p) :
    ∃ r ∈ w.rooms, (w.roomAt r).name = p.target ∧
      ∃ m ∈ (w.roomAt r).members, (w.clientAt (w.memberAt m).client).connection = some x.1 := by
  obtain ⟨now, act⟩ := e
  have hw₀ : WF env { w with now := now } := hw.chore (.clock now)
  have hs₀ : Seated { w with now := now } := hs.chore hw (.clock now)
  have hquiet : ∀ w' : World, Hushed { w with now := now } { w with now := now } w' →
      x ∈ w'.sent.drop w.sent.length → False := by
    intro w' hush hin
    obtain ⟨out, hout, hstill⟩ := hush.still
    have hsent : w'.sent = w.sent ++ out := hout
    rw [hsent, List.drop_left] at hin
    rw [hstill x hin] at hp
    cases hp
  by_cases hact : act = .save ∨ act = .restart
  · have hnothing : (w.step env ⟨now, act⟩).sent = w.sent := by
      obtain rfl | rfl := hact
      · rw [World.step_save]
      · rw [World.step_restart]
        exact World.restart_sent _
    rw [hnothing, List.drop_length] at hx
    cases hx
  · cases World.step_heard hw ⟨now, act⟩ hact with
    | inl hr => exact (hquiet _ (hr.hushed hw₀) hx).elim
    | inr hpacket =>
      obtain ⟨c, k, -, hsteps⟩ := hpacket
      cases hsteps.heard hw₀ hs₀ with
      | nothing hush => exact (hquiet _ hush hx).elim
      | said r m style text w₁ hm _ _ hcalm _ hsaid =>
        obtain ⟨out, hout, hstill⟩ := World.sent_said hcalm hsaid
        have hsent : (w.step env ⟨now, act⟩).sent =
            w.sent ++ (w₁.roomMail r (.packet (.message (w₁.spoken r m style text))) ++ out) := hout
        rw [hsent, List.drop_left] at hx
        cases List.mem_append.mp hx with
        | inl hx =>
          obtain ⟨⟨n, hn, hk⟩, hxe⟩ := World.mem_roomMail.mp hx
          rw [hxe] at hp
          have hpe : w₁.spoken r m style text = p := Option.some.inj hp
          have htarget : (w₁.spoken r m style text).target = (w.roomAt r).name :=
            World.spoken_target (w := { w with now := now }) hw₀.linked hm hcalm
          rw [hcalm.roomAt] at hn
          rw [hcalm.connection, hcalm.memberAt] at hk
          exact ⟨r, hw₀.linked.listed r m hm, htarget.symm.trans (congrArg PacketMessage.target hpe), n, hn, hk⟩
        | inr hx =>
          rw [hstill x hx] at hp
          cases hp

theorem Room.Logs.window {ps : List PacketMessage} {rm : Room} (h : Room.Logs env ps rm) (n : Nat) {i : Nat}
    {p : PacketMessage} (hp : (ps.drop n)[i]? = some p) :
    p.toId = 0 ∧ p.target = rm.name ∧
      p.id = decimal (rm.nextMessageId - UInt32.ofNat ((ps.drop n).length - i)).toNat := by
  obtain ⟨hto, htarget⟩ := h.address p (List.mem_of_mem_drop (List.mem_of_getElem? hp))
  have hlt : i < (ps.drop n).length := by
    by_contra hlong
    rw [List.getElem?_eq_none (Nat.le_of_not_lt hlong)] at hp
    cases hp
  rw [List.length_drop] at hlt
  have hid : p.id = decimal ((n + i) % 2 ^ 32 : Nat) := by
    rw [List.getElem?_drop] at hp
    exact h.id (n + i) p hp
  have hnumber : rm.nextMessageId - UInt32.ofNat ((ps.drop n).length - i) = UInt32.ofNat (n + i) := by
    rw [h.nextMessageId, List.length_drop, ← UInt32.ofNat_sub (by omega)]
    congr 1
    omega
  refine ⟨hto, htarget, ?_⟩
  rw [hid, hnumber, UInt32.toNat_ofNat']

theorem Room.Logs.same_number {ps : List PacketMessage} {rm rm' : Room} {qs : List PacketMessage}
    (h : Room.Logs env ps rm) (h' : Room.Logs env qs rm') (hgrown : ps <+: qs) {i j : Nat} {p q : PacketMessage}
    (hp : ps[i]? = some p) (hq : qs[j]? = some q) (hid : p.id = q.id) (hij : i < j + 2 ^ 32) (hji : j < i + 2 ^ 32) :
    p = q := by
  rw [h.id i p hp, h'.id j q hq] at hid
  have hnumber : i % 2 ^ 32 = j % 2 ^ 32 := decimal_injective hid
  have hsame : i = j := by omega
  subst hsame
  obtain ⟨rest, rfl⟩ := hgrown
  have hlt : i < ps.length := by
    by_contra hlong
    rw [List.getElem?_eq_none (Nat.le_of_not_lt hlong)] at hp
    cases hp
  rw [List.getElem?_append_left hlt, hp] at hq
  exact Option.some.inj hq

theorem conversation_snoc (env : Env) (es : List Event) {e : Event} (he : e.act ≠ .restart) {name : Bytes}
    (hroom : ∃ r ∈ (run env es).rooms, ((run env es).roomAt r).name = name) :
    conversation env es name <+: conversation env (es ++ [e]) name := by
  have hstep : conversation env (es ++ [e]) name = ((runTalk env es).2.step (runTalk env es).1
      ((runTalk env es).1.step env e) e.act).live name := by
    unfold conversation runTalk
    rw [List.foldl_append]
    rfl
  rw [hstep, runTalk_fst]
  by_cases hact : e.act = .save
  · rw [hact]
    exact List.prefix_rfl
  · obtain ⟨r, hr, rfl⟩ := hroom
    let w₀ : World := { run env es with now := e.now }
    let w' := (run env es).step env e
    have hlisten : (runTalk env es).2.step (run env es) w' e.act = (runTalk env es).2.listen w₀ w' :=
      Talk.step_listen _ e.now fun h => h.elim hact he
    have hlive : ((runTalk env es).2.listen w₀ w').live ((run env es).roomAt r).name =
        (runTalk env es).2.live ((run env es).roomAt r).name ++ w₀.heardIn w' ((run env es).roomAt r).name :=
      Talk.listen_old hr
    rw [hlisten]
    exact ⟨_, hlive.symm⟩

theorem conversation_grows (env : Env) (es more : List Event) {name : Bytes} (hmore : ∀ e ∈ more, e.act ≠ .restart)
    (hroom : ∀ pre, pre <+: more → ∃ r ∈ (run env (es ++ pre)).rooms, ((run env (es ++ pre)).roomAt r).name = name) :
    conversation env es name <+: conversation env (es ++ more) name := by
  induction more using List.reverseRecOn with
  | nil =>
    rw [List.append_nil]
  | append_singleton more e ih =>
    have hbefore : conversation env es name <+: conversation env (es ++ more) name := by
      refine ih (fun e' he' => hmore e' (List.mem_append_left _ he')) fun pre hpre => ?_
      exact hroom pre (hpre.trans (List.prefix_append more [e]))
    have hlast : conversation env (es ++ more) name <+: conversation env (es ++ more ++ [e]) name :=
      conversation_snoc env (es ++ more) (hmore e (by simp)) (hroom more (List.prefix_append more [e]))
    rw [← List.append_assoc]
    exact hbefore.trans hlast

end

/-- In every run what a connection got of the messages of a room of its client, since the client came to it, is
the end of the conversation in the room, with consecutive numbers up to the last one; while the room stays and
the server is not started again a number means one message, as long as they are not all used up; and a live
message goes to the members of its room only. -/
theorem run_feeds (env : Env) (es : List Event) :
    let w := run env es
    (∀ c k r, (w.clientAt c).connection = some k → r ∈ (w.clientAt c).rooms →
      let name := (w.roomAt r).name
      ∃ ps : List PacketMessage, ps <:+ conversation env es name ∧
        w.received env k name = ps.map (fun p => env.write p.serialize) ∧
        ∀ (i : Nat) (p : PacketMessage), ps[i]? = some p → p.toId = 0 ∧ p.target = name ∧
          p.id = decimal ((w.roomAt r).nextMessageId - UInt32.ofNat (ps.length - i)).toNat) ∧
    (∀ (more : List Event) (name : Bytes), (∀ e ∈ more, e.act ≠ .restart) →
      (∀ pre, pre <+: more → ∃ r ∈ (run env (es ++ pre)).rooms, ((run env (es ++ pre)).roomAt r).name = name) →
      let talk := conversation env es name
      let talk' := conversation env (es ++ more) name
      talk <+: talk' ∧ ∀ (i j : Nat) (p q : PacketMessage), talk[i]? = some p → talk'[j]? = some q → p.id = q.id →
        i < j + 2 ^ 32 → j < i + 2 ^ 32 → p = q) ∧
    ∀ e, ∀ x ∈ (w.step env e).sent.drop w.sent.length, ∀ p, x.2.publicMessage = some p →
      ∃ r ∈ w.rooms, (w.roomAt r).name = p.target ∧
        ∃ m ∈ (w.roomAt r).members, (w.clientAt (w.memberAt m).client).connection = some x.1 := by
  intro w
  refine ⟨?_, ?_, ?_⟩
  · intro c k r hk hr name
    have hl : w.membership.Linked := (wf_run env es).linked
    have hlog : Room.Logs env (conversation env es name) (w.roomAt r) :=
      (logs_run env es).rooms r (hl.listed_of_joined hr)
    have hlines : w.received env k name <:+ (conversation env es name).map fun p => env.write p.serialize :=
      (fed_run env es).received k r ⟨c, hk, hr⟩
    rw [List.suffix_iff_eq_drop, ← List.map_drop] at hlines
    exact ⟨_, List.drop_suffix _ _, hlines, fun i p hp => hlog.window _ hp⟩
  · intro more name hmore hroom talk talk'
    have hgrown : talk <+: talk' := conversation_grows env es more hmore hroom
    refine ⟨hgrown, ?_⟩
    intro i j p q hp hq hid hij hji
    obtain ⟨r, hr, hname⟩ := hroom [] List.nil_prefix
    obtain ⟨r', hr', hname'⟩ := hroom more List.prefix_rfl
    rw [List.append_nil] at hr hname
    have hlog : Room.Logs env talk ((run env es).roomAt r) := by
      have hlogs := (logs_run env es).rooms r hr
      rwa [hname] at hlogs
    have hlog' : Room.Logs env talk' ((run env (es ++ more)).roomAt r') := by
      have hlogs := (logs_run env (es ++ more)).rooms r' hr'
      rwa [hname'] at hlogs
    exact hlog.same_number hlog' hgrown hp hq hid hij hji
  · intro e x hx p hp
    exact World.step_public (wf_run env es) (seated_run env es) e hx hp

theorem run_feeds_two :
    let w := run Sample.surroundings Sample.talks
    let name := (w.roomAt ⟨0⟩).name
    (w.received Sample.surroundings ⟨1⟩ name).length = 2 ∧
      ∃ ps : List PacketMessage, ps <:+ conversation Sample.surroundings Sample.talks name ∧
        w.received Sample.surroundings ⟨1⟩ name = ps.map (fun p => Sample.surroundings.write p.serialize) ∧
        ∀ (i : Nat) (p : PacketMessage), ps[i]? = some p → p.toId = 0 ∧ p.target = name ∧
          p.id = decimal ((w.roomAt ⟨0⟩).nextMessageId - UInt32.ofNat (ps.length - i)).toNat := by
  intro w name
  have hseat : (w.clientAt ⟨0⟩).connection = some ⟨1⟩ ∧ ⟨0⟩ ∈ (w.clientAt ⟨0⟩).rooms.elems ∧
      (w.received Sample.surroundings ⟨1⟩ name).length = 2 := by decide +kernel
  obtain ⟨hk, hr, hlength⟩ := hseat
  exact ⟨hlength, (run_feeds Sample.surroundings Sample.talks).1 ⟨0⟩ ⟨1⟩ ⟨0⟩ hk (IterSet.mem_elems.mp hr)⟩

def Sample.rewound : List Event :=
  room ++ [⟨7, .save⟩, sends 8 1 (line (utf8 "hello")), ⟨9, .restart⟩, opens 10 3 98 mem_b, sends 11 3 (ofTarget 6),
    sends 12 3 (line (utf8 "/nick bar")), sends 13 3 (line (utf8 "again"))]

/-- A restored room numbers anew what was not saved. -/
theorem run_feeds_rewound :
    let heard := (run Sample.surroundings Sample.rewound).sent.filterMap fun x => x.2.publicMessage.map (Prod.mk x.1)
    ∃ x ∈ heard, ∃ y ∈ heard, x.1 = ⟨1⟩ ∧ y.1 = ⟨3⟩ ∧ x.2.target = utf8 "#room" ∧ y.2.target = utf8 "#room" ∧
      x.2.id = y.2.id ∧ x.2.message = utf8 "hello" ∧ y.2.message = utf8 "again" := by
  decide +kernel

end WsChat
