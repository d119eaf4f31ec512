import WsChat.Members

/-! What a client makes of the packets about a room: the view of the room that it can rebuild, and
what of the room it shows. -/
namespace WsChat
open Lib Relation ClientsManager

/-- A member as it is shown: its nick, its looks, and where it is. -/
structure Entry where
  name : Bytes
  girl : Bool
  color : Bytes
  presence : Option Status := none
  deriving DecidableEq

def Entry.ofStatus (p : PacketStatus) : Entry :=
  { name := p.name, girl := p.girl, color := p.color, presence := some p.status }

def Entry.ofMember (mem : Member) : Entry :=
  { name := mem.nick, girl := mem.girl, color := mem.color, presence := some mem.status }

/-- The entries by member id. -/
abbrev View := UInt32 → Option Entry

def Status.presence : Status → Option Status
  | .online | .back => some .online
  | .away => some .away
  | .orphan => some .orphan
  | _ => none

namespace View

def empty : View := fun _ => none

def ofList (l : List PacketStatus) : View := fun id => (l.find? fun p => p.memberId == id).map Entry.ofStatus

def status (v : View) (p : PacketStatus) : View :=
  if p.status = .offline then Function.update v p.memberId none
  else Function.update v p.memberId (some {
    name := p.name, girl := p.girl, color := p.color
    presence := p.status.presence.or ((v p.memberId).bind Entry.presence) })

/-- What a packet changes in the view of the room of the name. -/
def see (name : Bytes) (v : View) : Wire → View
  | .packet (.onlineList p) => if p.target = name then ofList p.list else v
  | .packet (.status p) => if p.target = name then v.status p else v
  | _ => v

def named (v : View) : View := fun id => (v id).filter fun e => e.name ≠ []

end View

def feed (k : ConnectionPtr) (out : List (ConnectionPtr × Wire)) : List Wire :=
  (out.filter fun x => x.1 = k).map Prod.snd

def World.viewOf (w : World) (k : ConnectionPtr) (name : Bytes) : View :=
  (feed k w.sent).foldl (View.see name) View.empty

/-- A member of the room has the id and the nick, looks and presence of the entry. -/
def World.Shows (w : World) (r : RoomPtr) (id : UInt32) (e : Entry) : Prop :=
  ∃ m ∈ (w.roomAt r).members, (w.memberAt m).nick ≠ [] ∧ (w.memberAt m).id = id ∧
    Entry.ofMember (w.memberAt m) = e

/-- The named entries are the members with a nick. -/
def View.Depicts (v : View) (w : World) (r : RoomPtr) : Prop := ∀ id e, v.named id = some e ↔ w.Shows r id e

section
variable {k : ConnectionPtr} {x : Wire} {out : List (ConnectionPtr × Wire)} {name : Bytes}

@[simp] theorem mem_feed : x ∈ feed k out ↔ (k, x) ∈ out := by
  simp [feed]

@[simp] theorem feed_append (a b : List (ConnectionPtr × Wire)) : feed k (a ++ b) = feed k a ++ feed k b := by
  simp [feed]

theorem feed_flatMap {α : Type*} (l : List α) (g : α → List (ConnectionPtr × Wire)) :
    feed k (l.flatMap g) = l.flatMap fun a => feed k (g a) := by
  simp [feed, List.filter_flatMap, List.map_flatMap]

def Wire.Idle (name : Bytes) : Wire → Prop
  | .packet (.onlineList p) => p.target ≠ name
  | .packet (.status p) => p.target ≠ name
  | _ => True

theorem Wire.Idle.see (h : x.Idle name) (v : View) : v.see name x = v := by
  cases x with
  | raw => rfl
  | packet p =>
    cases p with
    | onlineList | status => exact if_neg h
    | _ => rfl

theorem Wire.Plain.idle {S : Bytes → Prop} (h : x.Plain S) (name : Bytes) : x.Idle name := by
  cases x with
  | raw => trivial
  | packet p =>
    cases p with
    | onlineList | status => exact h.elim
    | _ => trivial

end

namespace View
variable {v : View} {id : UInt32} {e : Entry} {p : PacketStatus} {w w' : World} {r : RoomPtr}

theorem named_eq_some : v.named id = some e ↔ v id = some e ∧ e.name ≠ [] := by
  simp [named, Option.filter_eq_some_iff]

theorem status_idem (v : View) (p : PacketStatus) : (v.status p).status p = v.status p := by
  unfold status
  split
  · exact Function.update_idem ..
  · rw [Function.update_idem, Function.update_self]
    cases p.status.presence <;> rfl

theorem see_idem (name : Bytes) (v : View) (p : PacketStatus) :
    (v.see name (.packet (.status p))).see name (.packet (.status p)) = v.see name (.packet (.status p)) := by
  unfold see
  dsimp only
  split
  · exact status_idem v p
  · rfl

theorem Depicts.gone (h : v.Depicts w r) (hp : p.status = .offline)
    (hshows : ∀ id e, w'.Shows r id e ↔ id ≠ p.memberId ∧ w.Shows r id e) : (v.status p).Depicts w' r := by
  intro id e
  rw [hshows, ← h id e, named_eq_some, named_eq_some]
  unfold status
  rw [if_pos hp]
  by_cases hid : id = p.memberId
  · subst hid
    simp
  · simp [hid]

theorem Depicts.changed {stat : Status} (h : v.Depicts w r) (hp : p.status ≠ .offline)
    (hpresence : p.name ≠ [] → p.status.presence = some stat ∨
      (p.status.presence = none ∧ ∃ e, w.Shows r p.memberId e ∧ e.presence = some stat))
    (hshows : ∀ id e, w'.Shows r id e ↔ if id = p.memberId
      then p.name ≠ [] ∧ e = ⟨p.name, p.girl, p.color, some stat⟩ else w.Shows r id e) :
    (v.status p).Depicts w' r := by
  intro id e
  rw [hshows, named_eq_some]
  unfold status
  rw [if_neg hp]
  by_cases hid : id = p.memberId
  · subst hid
    rw [if_pos rfl, Function.update_self, Option.some.injEq]
    have hpres : p.name ≠ [] → p.status.presence.or ((v p.memberId).bind Entry.presence) = some stat := by
      intro hname
      cases hpresence hname with
      | inl hsome => rw [hsome, Option.some_or]
      | inr hkept =>
        obtain ⟨hnone, old, hold, hstat⟩ := hkept
        rw [hnone, Option.none_or, (named_eq_some.mp ((h _ old).mpr hold)).1]
        exact hstat
    constructor
    · intro he
      obtain ⟨rfl, hname⟩ := he
      exact ⟨hname, by rw [hpres hname]⟩
    · intro he
      obtain ⟨hname, rfl⟩ := he
      exact ⟨by rw [hpres hname], hname⟩
  · rw [if_neg hid, Function.update_of_ne hid, ← h id e, named_eq_some]

theorem ofList_depicts (hs : Seated w) (sequenceId : Option UInt32) :
    (ofList (PacketOnlineList.ofRoom w r sequenceId).list).Depicts w r := by
  intro id e
  rw [named_eq_some]
  constructor
  · intro he
    obtain ⟨hfound, -⟩ := he
    obtain ⟨p, hp, rfl⟩ := Option.map_eq_some_iff.mp hfound
    have hid : p.memberId = id := by simpa using List.find?_some hp
    obtain ⟨m, hm, rfl⟩ := List.mem_map.mp (List.mem_of_find?_eq_some hp)
    obtain ⟨hin, hnick⟩ := List.mem_filter.mp hm
    exact ⟨m, IterSet.mem_elems.mp hin, by simpa [Member.hasNick] using hnick, hid, rfl⟩
  · intro he
    obtain ⟨m, hm, hnick, rfl, rfl⟩ := he
    refine ⟨?_, hnick⟩
    have hlisted : PacketStatus.ofMember w m (w.memberAt m).status ∈ (PacketOnlineList.ofRoom w r sequenceId).list := by
      refine List.mem_map_of_mem (List.mem_filter.mpr ⟨IterSet.mem_elems.mpr hm, ?_⟩)
      simpa [Member.hasNick] using hnick
    unfold ofList
    cases hfind : (PacketOnlineList.ofRoom w r sequenceId).list.find? fun p => p.memberId == (w.memberAt m).id with
    | none => exact absurd (List.find?_eq_none.mp hfind _ hlisted) (by simp [PacketStatus.ofMember])
    | some p =>
      have hid : p.memberId = (w.memberAt m).id := by simpa using List.find?_some hfind
      obtain ⟨n, hn, rfl⟩ := List.mem_map.mp (List.mem_of_find?_eq_some hfind)
      have hin := IterSet.mem_elems.mp (List.mem_of_mem_filter hn)
      have hsame : n = m := hs.ids r n hin m hm hid
      rw [hsame]
      rfl

end View

section
variable {env : Env} {w w' : World} {c d : ClientPtr} {k : ConnectionPtr} {r s : RoomPtr} {m : MemberPtr} {id : UInt32}
  {e : Entry} {p : PacketStatus} {out : List (ConnectionPtr × Wire)}

theorem World.shows_congr (hmembers : (w'.roomAt r).members = (w.roomAt r).members)
    (hmember : ∀ n ∈ (w.roomAt r).members, w'.memberAt n = w.memberAt n) : w'.Shows r id e ↔ w.Shows r id e := by
  unfold World.Shows
  rw [hmembers]
  refine exists_congr fun n => and_congr_right fun hn => ?_
  rw [hmember n hn]

theorem World.shows_change (hs : Seated w) (hm : m ∈ (w.roomAt r).members)
    (hmembers : (w'.roomAt r).members = (w.roomAt r).members) (hid : (w'.memberAt m).id = (w.memberAt m).id)
    (hothers : ∀ n ∈ (w.roomAt r).members, n ≠ m → w'.memberAt n = w.memberAt n) :
    w'.Shows r id e ↔ if id = (w.memberAt m).id
      then (w'.memberAt m).nick ≠ [] ∧ e = Entry.ofMember (w'.memberAt m) else w.Shows r id e := by
  unfold World.Shows
  rw [hmembers]
  split
  · rename_i hself
    subst hself
    constructor
    · intro h
      obtain ⟨n, hn, hnick, hnid, rfl⟩ := h
      by_cases hnm : n = m
      · subst hnm
        exact ⟨hnick, rfl⟩
      · rw [hothers n hn hnm] at hnid
        exact absurd (hs.ids r n hn m hm hnid) hnm
    · intro h
      obtain ⟨hnick, rfl⟩ := h
      exact ⟨m, hm, hnick, hid, rfl⟩
  · rename_i hother
    refine exists_congr fun n => and_congr_right fun hn => ?_
    by_cases hnm : n = m
    · subst hnm
      rw [hid]
      exact iff_of_false (fun h => hother h.2.1.symm) fun h => hother h.2.1.symm
    · rw [hothers n hn hnm]

theorem World.shows_erase (hs : Seated w) (hm : m ∈ (w.roomAt r).members)
    (hmembers : ∀ n, n ∈ (w'.roomAt r).members ↔ n ∈ (w.roomAt r).members ∧ n ≠ m)
    (hmember : ∀ n ∈ (w.roomAt r).members, w'.memberAt n = w.memberAt n) :
    w'.Shows r id e ↔ id ≠ (w.memberAt m).id ∧ w.Shows r id e := by
  unfold World.Shows
  constructor
  · intro h
    obtain ⟨n, hn, hshown⟩ := h
    obtain ⟨hin, hne⟩ := (hmembers n).mp hn
    rw [hmember n hin] at hshown
    refine ⟨?_, n, hin, hshown⟩
    intro hid
    exact hne (hs.ids r n hin m hm (hshown.2.1.trans hid))
  · intro h
    obtain ⟨hid, n, hin, hshown⟩ := h
    have hne : n ≠ m := by
      intro he
      exact hid (he ▸ hshown.2.1.symm)
    refine ⟨n, (hmembers n).mpr ⟨hin, hne⟩, ?_⟩
    rw [hmember n hin]
    exact hshown

def World.Knows (w : World) (k : ConnectionPtr) (r : RoomPtr) : Prop := (w.viewOf k (w.roomAt r).name).Depicts w r

theorem World.Knows.idle (h : w.Knows k r) (hname : (w'.roomAt r).name = (w.roomAt r).name)
    (hsent : w'.sent = w.sent ++ out) (hidle : ∀ x, (k, x) ∈ out → x.Idle (w.roomAt r).name)
    (hshows : ∀ id e, w'.Shows r id e ↔ w.Shows r id e) : w'.Knows k r := by
  have hview : w'.viewOf k (w'.roomAt r).name = w.viewOf k (w.roomAt r).name := by
    unfold World.viewOf
    rw [hname, hsent, feed_append, List.foldl_append]
    exact foldl_idle (fun x hx => (hidle x (mem_feed.mp hx)).see) _
  intro id e
  rw [hview, hshows]
  exact h id e

theorem World.Knows.told (h : w.Knows k r) (hname : (w'.roomAt r).name = (w.roomAt r).name)
    (hsent : w'.sent = w.sent ++ out) (htarget : p.target = (w.roomAt r).name)
    (hall : ∀ x, (k, x) ∈ out → x = .packet (.status p) ∨ x.Idle (w.roomAt r).name)
    (hin : (k, .packet (.status p)) ∈ out)
    (hstep : ∀ v : View, v.Depicts w r → (v.status p).Depicts w' r) : w'.Knows k r := by
  have hview : w'.viewOf k (w'.roomAt r).name = (w.viewOf k (w.roomAt r).name).status p := by
    unfold World.viewOf
    rw [hname, hsent, feed_append, List.foldl_append]
    rw [foldl_copies (fun v => View.see_idem _ v p) ?_ (mem_feed.mpr hin)]
    · exact if_pos htarget
    · intro x hx
      exact (hall x (mem_feed.mp hx)).imp_right fun hidle => hidle.see
  unfold World.Knows
  rw [hview]
  exact hstep _ h

theorem World.Knows.without (h : w.Knows k r) (hs : Seated w) (hm : m ∈ (w.roomAt r).members)
    (hhome : (w.memberAt m).room = r) (hname : (w'.roomAt r).name = (w.roomAt r).name)
    (hmembers : ∀ n, n ∈ (w'.roomAt r).members ↔ n ∈ (w.roomAt r).members ∧ n ≠ m)
    (hmember : ∀ n ∈ (w.roomAt r).members, w'.memberAt n = w.memberAt n) (hsent : w'.sent = w.sent ++ out)
    (hall : ∀ x, (k, x) ∈ out → (k, x) ∈ w.offlineMail r m ∨ x.Idle (w.roomAt r).name)
    (hsub : ∀ x ∈ w.offlineMail r m, x ∈ out)
    (hk : ∃ n ∈ (w.roomAt r).members, (w.clientAt (w.memberAt n).client).connection = some k) : w'.Knows k r := by
  have hshows : ∀ id e, w'.Shows r id e ↔ id ≠ (w.memberAt m).id ∧ w.Shows r id e :=
    fun _ _ => World.shows_erase hs hm hmembers hmember
  by_cases hnick : (w.memberAt m).hasNick
  · have hmail : w.offlineMail r m = w.roomMail r (.packet (.status (PacketStatus.ofMember w m .offline))) :=
      if_pos hnick
    refine h.told (p := PacketStatus.ofMember w m .offline) hname hsent (by rw [← hhome]; rfl) ?_ ?_ ?_
    · intro x hx
      exact (hall x hx).imp_left fun hin => World.offlineMail_status _ hin
    · exact hsub _ (hmail ▸ World.mem_roomMail.mpr ⟨hk, rfl⟩)
    · exact fun v hv => hv.gone rfl hshows
  · have hmail : w.offlineMail r m = [] := if_neg hnick
    refine h.idle hname hsent ?_ ?_
    · intro x hx
      refine (hall x hx).resolve_left ?_
      rw [hmail]
      exact List.not_mem_nil
    · intro id e
      rw [hshows]
      refine and_iff_right_of_imp fun hshown hid => ?_
      obtain ⟨n, hn, hnamed, hnid, -⟩ := hshown
      have hsame : n = m := hs.ids r n hn m hm (hnid.trans hid)
      subst hsame
      exact hnick (by simpa [Member.hasNick] using hnamed)

theorem World.Knows.changed {data : Bytes} {stat : Status} (h : w.Knows k r) (hs : Seated w)
    (hm : m ∈ (w.roomAt r).members) (hhome : (w'.memberAt m).room = r)
    (hname : (w'.roomAt r).name = (w.roomAt r).name)
    (hmembers : (w'.roomAt r).members = (w.roomAt r).members) (hid : (w'.memberAt m).id = (w.memberAt m).id)
    (hothers : ∀ n ∈ (w.roomAt r).members, n ≠ m → w'.memberAt n = w.memberAt n)
    (hsent : w'.sent = w.sent ++ out) (hstat : stat ≠ .offline)
    (hnick : (w.memberAt m).nick ≠ [] → (w'.memberAt m).nick ≠ [])
    (hpresence : (w'.memberAt m).nick ≠ [] → stat.presence = some (w'.memberAt m).status ∨
      (stat.presence = none ∧ (w.memberAt m).nick ≠ [] ∧ (w'.memberAt m).status = (w.memberAt m).status))
    (hall : ∀ x, (k, x) ∈ out →
      x = .packet (.status (PacketStatus.ofMember w' m stat data)) ∨ x.Idle (w.roomAt r).name)
    (hin : (w'.memberAt m).nick ≠ [] → (k, .packet (.status (PacketStatus.ofMember w' m stat data))) ∈ out) :
    w'.Knows k r := by
  have hshows : ∀ id e, w'.Shows r id e ↔ if id = (w.memberAt m).id
      then (w'.memberAt m).nick ≠ [] ∧ e = Entry.ofMember (w'.memberAt m) else w.Shows r id e :=
    fun _ _ => World.shows_change hs hm hmembers hid hothers
  have htarget : (PacketStatus.ofMember w' m stat data).target = (w.roomAt r).name := by
    rw [← hname, ← hhome]
    rfl
  have hstep : ∀ v : View, v.Depicts w r → (v.status (PacketStatus.ofMember w' m stat data)).Depicts w' r := by
    intro v hv
    have hself : (PacketStatus.ofMember w' m stat data).name ≠ [] →
        stat.presence = some (w'.memberAt m).status ∨ (stat.presence = none ∧
          ∃ e, w.Shows r (w'.memberAt m).id e ∧ e.presence = some (w'.memberAt m).status) := by
      intro hnamed
      refine (hpresence hnamed).imp_right fun hkept => ⟨hkept.1, Entry.ofMember (w.memberAt m), ?_, ?_⟩
      · exact ⟨m, hm, hkept.2.1, hid.symm, rfl⟩
      · exact congrArg some hkept.2.2.symm
    refine hv.changed hstat hself ?_
    intro id e
    rw [hshows, ← hid]
    rfl
  by_cases hnamed : (w'.memberAt m).nick = []
  · by_cases hsome : (k, .packet (.status (PacketStatus.ofMember w' m stat data))) ∈ out
    · exact h.told hname hsent htarget hall hsome hstep
    · refine h.idle hname hsent ?_ ?_
      · intro x hx
        refine (hall x hx).resolve_left fun he => ?_
        exact hsome (he ▸ hx)
      · intro id e
        rw [hshows]
        split
        · rename_i hself
          refine iff_of_false (fun hno => hno.1 hnamed) fun hshown => ?_
          obtain ⟨n, hn, hnn, hnid, -⟩ := hshown
          have hsame : n = m := hs.ids r n hn m hm (hnid.trans hself)
          subst hsame
          exact hnick hnn hnamed
        · exact Iff.rfl
  · exact h.told hname hsent htarget hall (hin hnamed) hstep

end

end WsChat
