import WsChat.Replies

/-! The wire format: what the server writes of its packets, how much of a packet that is, and what its own
reader makes of it. -/
namespace WsChat
open Lib

def PacketType.code : PacketType → Int
  | .error => 0
  | .system => 1
  | .message => 2
  | .onlineList => 3
  | .auth => 4
  | .status => 5
  | .join => 6
  | .leave => 7
  | .createRoom => 8
  | .removeRoom => 9
  | .ping => 10

def ErrorCode.code : ErrorCode → Int
  | .unknown => 0
  | .databaseError => 1
  | .alreadyConnected => 2
  | .notFound => 3
  | .accessDenied => 4
  | .invalidTarget => 5
  | .alreadyExists => 6
  | .incorrectLoginpass => 7
  | .userBanned => 8

def Status.code : Status → Int
  | .bad => 0
  | .offline => 1
  | .online => 2
  | .away => 3
  | .nickChange => 4
  | .genderChange => 5
  | .colorChange => 6
  | .back => 7
  | .typing => 8
  | .stopTyping => 9
  | .orphan => 10
  | .other n => n

/-- `Packet::serialize`, to which each class adds its fields. -/
def Packet.serializeHead (sequenceId : Option UInt32) : List (Bytes × Json) :=
  sequenceId.toList.map fun n => (utf8 "sequenceId", Json.uint n)

def PacketError.serialize (p : PacketError) : Json :=
  .obj (Packet.serializeHead p.sequenceId ++
    [(utf8 "type", .int 0), (utf8 "source", .int p.source.code), (utf8 "target", .str p.target),
     (utf8 "code", .int p.code.code), (utf8 "info", .str p.info)])

def PacketSystem.serialize (p : PacketSystem) : Json :=
  .obj (Packet.serializeHead p.sequenceId ++
    [(utf8 "type", .int 1), (utf8 "message", .str p.message), (utf8 "target", .str p.target)])

def PacketStatus.serialize (p : PacketStatus) : Json :=
  .obj (Packet.serializeHead p.sequenceId ++
    [(utf8 "type", .int 5), (utf8 "target", .str p.target), (utf8 "name", .str p.name),
     (utf8 "status", .int p.status.code), (utf8 "member_id", Json.uint p.memberId),
     (utf8 "user_id", Json.uint p.userId), (utf8 "girl", .bool p.girl), (utf8 "color", .str p.color),
     (utf8 "data", .str p.data), (utf8 "is_owner", .bool p.isOwner), (utf8 "is_moder", .bool p.isModer),
     (utf8 "last_seen_time", .int (p.lastSeenTime % 2 ^ 64))])

def PacketOnlineList.serialize (p : PacketOnlineList) : Json :=
  .obj (Packet.serializeHead p.sequenceId ++
    [(utf8 "type", .int 3), (utf8 "target", .str p.target), (utf8 "list", .arr (p.list.map PacketStatus.serialize))])

def PacketAuth.serialize (p : PacketAuth) : Json :=
  .obj (Packet.serializeHead p.sequenceId ++
    [(utf8 "type", .int 4), (utf8 "user_id", Json.uint p.userId), (utf8 "name", .str p.name),
     (utf8 "token", .str p.token)])

def PacketJoin.serialize (p : PacketJoin) : Json :=
  .obj (Packet.serializeHead p.sequenceId ++
    [(utf8 "type", .int 6), (utf8 "target", .str p.target), (utf8 "member_id", Json.uint p.memberId),
     (utf8 "login", .str p.login)])

/-- `serialize` of `PacketLeave`, `PacketCreateRoom` and `PacketRemoveRoom`. -/
def PacketTarget.serialize (type : PacketType) (p : PacketTarget) : Json :=
  .obj (Packet.serializeHead p.sequenceId ++ [(utf8 "type", .int type.code), (utf8 "target", .str p.target)])

def PacketPing.serialize (sequenceId : Option UInt32) : Json :=
  .obj (Packet.serializeHead sequenceId ++ [(utf8 "type", .int 10)])

def Packet.serialize : Packet → Json
  | .error p => p.serialize
  | .system p => p.serialize
  | .message p => p.serialize
  | .onlineList p => p.serialize
  | .auth p => p.serialize
  | .status p => p.serialize
  | .join p => p.serialize
  | .leave p => p.serialize .leave
  | .createRoom p => p.serialize .createRoom
  | .removeRoom p => p.serialize .removeRoom
  | .ping sequenceId => PacketPing.serialize sequenceId

def Wire.text (env : Env) : Wire → Bytes
  | .packet p => env.write p.serialize
  | .raw data => data

def PacketMessage.shown (p : PacketMessage) : PacketMessage := { p with msgtime := p.msgtime % 2 ^ 64 }

def PacketStatus.shown (p : PacketStatus) : PacketStatus :=
  { p with status := Status.ofInt p.status.code, lastSeenTime := p.lastSeenTime % 2 ^ 64 }

def PacketAuth.shown (p : PacketAuth) : PacketAuth := { p with ukey := [], apiKey := [], password := [] }

def PacketJoin.shown (p : PacketJoin) : PacketJoin := { p with autoLogin := true, loadHistory := true }

def Packet.shown : Packet → Packet
  | .message p => .message p.shown
  | .onlineList p => .onlineList { p with list := p.list.map PacketStatus.shown }
  | .auth p => .auth p.shown
  | .status p => .status p.shown
  | .join p => .join p.shown
  | p => p

theorem PacketType.code_injective {s t : PacketType} (h : s.code = t.code) : s = t := by
  cases s <;> cases t <;> first | rfl | cases h

theorem ErrorCode.code_injective {s t : ErrorCode} (h : s.code = t.code) : s = t := by
  cases s <;> cases t <;> first | rfl | cases h

theorem Style.code_injective {s t : Style} (h : s.code = t.code) : s = t := by
  cases s <;> cases t <;> first | rfl | cases h

theorem Status.code_ofInt (n : Int) : (Status.ofInt n).code = n := by
  unfold Status.ofInt
  split <;> rfl

theorem Json.uint_injective {m n : UInt32} (h : Json.uint m = Json.uint n) : m = n := by
  have hnat : (m.toNat : Int) = n.toNat := Json.int.inj h
  exact UInt32.toNat_inj.mp (Int.ofNat.inj hnat)

theorem utf8_beq {s t : String} (h : s ≠ t) : (utf8 s == utf8 t) = false := by
  rw [beq_eq_false_iff_ne]
  exact fun he => h (utf8_injective he)

theorem Packet.serializeHead_injective {a b : Option UInt32} {key key' : Bytes} {v v' : Json}
    {l l' : List (Bytes × Json)} (hkey : (key == utf8 "sequenceId") = false) (hkey' : (key' == utf8 "sequenceId") = false)
    (h : Packet.serializeHead a ++ (key, v) :: l = Packet.serializeHead b ++ (key', v') :: l') :
    a = b ∧ (key, v) :: l = (key', v') :: l' := by
  cases a with
  | none =>
    cases b with
    | none => exact ⟨rfl, h⟩
    | some n =>
      have hfirst : (key, v) = (utf8 "sequenceId", Json.uint n) := (List.cons.inj h).1
      rw [(Prod.mk.inj hfirst).1, beq_self_eq_true] at hkey
      cases hkey
  | some m =>
    cases b with
    | none =>
      have hfirst : (utf8 "sequenceId", Json.uint m) = (key', v') := (List.cons.inj h).1
      rw [← (Prod.mk.inj hfirst).1, beq_self_eq_true] at hkey'
      cases hkey'
    | some n =>
      obtain ⟨hfirst, hrest⟩ := List.cons.inj h
      exact ⟨congrArg some (Json.uint_injective (Prod.mk.inj hfirst).2), hrest⟩

theorem Packet.serialize_shown (p : Packet) : p.shown.serialize = p.serialize := by
  have hstatus : ∀ p : PacketStatus, p.shown.serialize = p.serialize := by
    intro p
    unfold PacketStatus.serialize PacketStatus.shown
    rw [Status.code_ofInt, Int.emod_emod_of_dvd _ dvd_rfl]
  cases p with
  | message p =>
    change PacketMessage.serialize p.shown = PacketMessage.serialize p
    unfold PacketMessage.serialize PacketMessage.shown
    rw [Int.emod_emod_of_dvd _ dvd_rfl]
  | onlineList p =>
    change PacketOnlineList.serialize { p with list := p.list.map PacketStatus.shown } = PacketOnlineList.serialize p
    unfold PacketOnlineList.serialize
    rw [List.map_map, show PacketStatus.serialize ∘ PacketStatus.shown = PacketStatus.serialize from funext hstatus]
  | status p => exact hstatus p
  | _ => rfl

theorem PacketError.serialize_injective {p q : PacketError} (h : p.serialize = q.serialize) : p = q := by
  obtain ⟨hid, hfields⟩ := Packet.serializeHead_injective (utf8_beq (by simp)) (utf8_beq (by simp)) (Json.obj.inj h)
  simp only [List.cons.injEq, Prod.mk.injEq, Json.int.injEq, Json.str.injEq, true_and, and_true] at hfields
  obtain ⟨hsource, htarget, hcode, hinfo⟩ := hfields
  cases p
  cases q
  simp only [PacketError.mk.injEq]
  exact ⟨hid, PacketType.code_injective hsource, htarget, ErrorCode.code_injective hcode, hinfo⟩

theorem PacketSystem.serialize_injective {p q : PacketSystem} (h : p.serialize = q.serialize) : p = q := by
  obtain ⟨hid, hfields⟩ := Packet.serializeHead_injective (utf8_beq (by simp)) (utf8_beq (by simp)) (Json.obj.inj h)
  simp only [List.cons.injEq, Prod.mk.injEq, Json.str.injEq, true_and, and_true] at hfields
  obtain ⟨hmessage, htarget⟩ := hfields
  cases p
  cases q
  simp only [PacketSystem.mk.injEq]
  exact ⟨hid, htarget, hmessage⟩

theorem PacketMessage.serialize_injective {p q : PacketMessage} (h : p.serialize = q.serialize) :
    p.shown = q.shown := by
  obtain ⟨hid, hfields⟩ := Packet.serializeHead_injective (utf8_beq (by simp)) (utf8_beq (by simp)) (Json.obj.inj h)
  simp only [List.cons.injEq, Prod.mk.injEq, Json.int.injEq, Json.str.injEq, true_and, and_true] at hfields
  obtain ⟨hnumber, htarget, htime, hcolor, hlogin, hfrom, hto, hstyle, hmessage⟩ := hfields
  cases p
  cases q
  simp only [PacketMessage.shown, PacketMessage.mk.injEq]
  exact ⟨hid, hnumber, htime, htarget, hmessage, hcolor, hlogin, Json.uint_injective hfrom, Json.uint_injective hto,
    Style.code_injective hstyle⟩

theorem PacketStatus.serialize_injective {p q : PacketStatus} (h : p.serialize = q.serialize) : p.shown = q.shown := by
  obtain ⟨hid, hfields⟩ := Packet.serializeHead_injective (utf8_beq (by simp)) (utf8_beq (by simp)) (Json.obj.inj h)
  simp only [List.cons.injEq, Prod.mk.injEq, Json.int.injEq, Json.str.injEq, Json.bool.injEq, true_and,
    and_true] at hfields
  obtain ⟨htarget, hname, hstatus, hmember, huser, hgirl, hcolor, hdata, howner, hmoder, hseen⟩ := hfields
  cases p
  cases q
  simp only [PacketStatus.shown, PacketStatus.mk.injEq]
  exact ⟨hid, htarget, congrArg Status.ofInt hstatus, Json.uint_injective hmember, Json.uint_injective huser, hgirl,
    hcolor, hname, hdata, howner, hmoder, hseen⟩

theorem PacketOnlineList.serialize_injective {p q : PacketOnlineList} (h : p.serialize = q.serialize) :
    (Packet.onlineList p).shown = (Packet.onlineList q).shown := by
  obtain ⟨hid, hfields⟩ := Packet.serializeHead_injective (utf8_beq (by simp)) (utf8_beq (by simp)) (Json.obj.inj h)
  simp only [List.cons.injEq, Prod.mk.injEq, Json.str.injEq, Json.arr.injEq, true_and, and_true] at hfields
  obtain ⟨htarget, hlist⟩ := hfields
  have hshown : ∀ l l' : List PacketStatus, l.map PacketStatus.serialize = l'.map PacketStatus.serialize →
      l.map PacketStatus.shown = l'.map PacketStatus.shown := by
    intro l
    induction l with
    | nil =>
      intro l' hl
      rw [List.map_eq_nil_iff.mp hl.symm]
    | cons p l ih =>
      intro l' hl
      cases l' with
      | nil => cases hl
      | cons q l' =>
        obtain ⟨hp, hrest⟩ := List.cons.inj hl
        rw [List.map_cons, List.map_cons, PacketStatus.serialize_injective hp, ih l' hrest]
  cases p
  cases q
  simp only [Packet.shown, Packet.onlineList.injEq, PacketOnlineList.mk.injEq]
  exact ⟨hid, htarget, hshown _ _ hlist⟩

theorem PacketAuth.serialize_injective {p q : PacketAuth} (h : p.serialize = q.serialize) : p.shown = q.shown := by
  obtain ⟨hid, hfields⟩ := Packet.serializeHead_injective (utf8_beq (by simp)) (utf8_beq (by simp)) (Json.obj.inj h)
  simp only [List.cons.injEq, Prod.mk.injEq, Json.str.injEq, true_and, and_true] at hfields
  obtain ⟨huser, hname, htoken⟩ := hfields
  cases p
  cases q
  simp only [PacketAuth.shown, PacketAuth.mk.injEq, true_and]
  exact ⟨hid, Json.uint_injective huser, hname, htoken⟩

theorem PacketJoin.serialize_injective {p q : PacketJoin} (h : p.serialize = q.serialize) : p.shown = q.shown := by
  obtain ⟨hid, hfields⟩ := Packet.serializeHead_injective (utf8_beq (by simp)) (utf8_beq (by simp)) (Json.obj.inj h)
  simp only [List.cons.injEq, Prod.mk.injEq, Json.str.injEq, true_and, and_true] at hfields
  obtain ⟨htarget, hmember, hlogin⟩ := hfields
  cases p
  cases q
  simp only [PacketJoin.shown, PacketJoin.mk.injEq, and_true]
  exact ⟨hid, htarget, Json.uint_injective hmember, hlogin⟩

theorem PacketTarget.serialize_injective {type : PacketType} {p q : PacketTarget}
    (h : p.serialize type = q.serialize type) : p = q := by
  obtain ⟨hid, hfields⟩ := Packet.serializeHead_injective (utf8_beq (by simp)) (utf8_beq (by simp)) (Json.obj.inj h)
  simp only [List.cons.injEq, Prod.mk.injEq, Json.str.injEq, true_and, and_true] at hfields
  cases p
  cases q
  simp only [PacketTarget.mk.injEq]
  exact ⟨hid, hfields⟩

theorem PacketPing.serialize_injective {a b : Option UInt32} (h : PacketPing.serialize a = PacketPing.serialize b) :
    a = b :=
  (Packet.serializeHead_injective (utf8_beq (by simp)) (utf8_beq (by simp)) (Json.obj.inj h)).1

theorem Json.get_serializeHead {key : Bytes} (hkey : (key == utf8 "sequenceId") = false) (a : Option UInt32)
    (l : List (Bytes × Json)) : Json.get key (.obj (Packet.serializeHead a ++ l)) = Json.get key (.obj l) := by
  cases a with
  | none => rfl
  | some n => exact Json.get_cons_ne hkey _ l

theorem Json.get_type_serialize (p : Packet) : p.serialize.get (utf8 "type") = .ok (.int p.type.code) := by
  have hhead : (utf8 "type" == utf8 "sequenceId") = false := utf8_beq (by simp)
  cases p with
  | message p =>
    refine (Json.get_serializeHead hhead p.sequenceId _).trans ?_
    rw [Json.get_cons_ne (utf8_beq (by simp)), Json.get_cons_self]
    rfl
  | error p => exact (Json.get_serializeHead hhead p.sequenceId _).trans (Json.get_cons_self _ _ _)
  | system p => exact (Json.get_serializeHead hhead p.sequenceId _).trans (Json.get_cons_self _ _ _)
  | onlineList p => exact (Json.get_serializeHead hhead p.sequenceId _).trans (Json.get_cons_self _ _ _)
  | auth p => exact (Json.get_serializeHead hhead p.sequenceId _).trans (Json.get_cons_self _ _ _)
  | status p => exact (Json.get_serializeHead hhead p.sequenceId _).trans (Json.get_cons_self _ _ _)
  | join p => exact (Json.get_serializeHead hhead p.sequenceId _).trans (Json.get_cons_self _ _ _)
  | leave p | createRoom p | removeRoom p =>
    exact (Json.get_serializeHead hhead p.sequenceId _).trans (Json.get_cons_self _ _ _)
  | ping sequenceId => exact (Json.get_serializeHead hhead sequenceId _).trans (Json.get_cons_self _ _ _)

/-- Two packets are written alike exactly when they show the same: credentials and wishes are never written, and
nothing else is lost. -/
theorem Packet.serialize_eq_iff (p q : Packet) : p.serialize = q.serialize ↔ p.shown = q.shown := by
  constructor
  · intro h
    have htype : p.type = q.type := by
      have hget := (Json.get_type_serialize p).symm.trans (h ▸ Json.get_type_serialize q)
      exact PacketType.code_injective (Json.int.inj (Except.ok.inj hget))
    cases p with
    | error p =>
      cases q with
      | error q => exact congrArg (fun p => (Packet.error p).shown) (PacketError.serialize_injective h)
      | _ => cases htype
    | system p =>
      cases q with
      | system q => exact congrArg (fun p => (Packet.system p).shown) (PacketSystem.serialize_injective h)
      | _ => cases htype
    | message p =>
      cases q with
      | message q => exact congrArg Packet.message (PacketMessage.serialize_injective h)
      | _ => cases htype
    | onlineList p =>
      cases q with
      | onlineList q => exact PacketOnlineList.serialize_injective h
      | _ => cases htype
    | auth p =>
      cases q with
      | auth q => exact congrArg Packet.auth (PacketAuth.serialize_injective h)
      | _ => cases htype
    | status p =>
      cases q with
      | status q => exact congrArg Packet.status (PacketStatus.serialize_injective h)
      | _ => cases htype
    | join p =>
      cases q with
      | join q => exact congrArg Packet.join (PacketJoin.serialize_injective h)
      | _ => cases htype
    | leave p =>
      cases q with
      | leave q => exact congrArg (fun p => (Packet.leave p).shown) (PacketTarget.serialize_injective h)
      | _ => cases htype
    | createRoom p =>
      cases q with
      | createRoom q => exact congrArg (fun p => (Packet.createRoom p).shown) (PacketTarget.serialize_injective h)
      | _ => cases htype
    | removeRoom p =>
      cases q with
      | removeRoom q => exact congrArg (fun p => (Packet.removeRoom p).shown) (PacketTarget.serialize_injective h)
      | _ => cases htype
    | ping a =>
      cases q with
      | ping b => exact congrArg (fun a => (Packet.ping a).shown) (PacketPing.serialize_injective h)
      | _ => cases htype
  · intro h
    rw [← p.serialize_shown, h, q.serialize_shown]

/-- The fields that are read, the others having their defaults, or nothing certain where there is none. -/
def Packet.readBack (unset : Unset) : Packet → Packet
  | .error p => .error { sequenceId := p.sequenceId, source := unset.source, code := unset.code }
  | .system p => .system { sequenceId := p.sequenceId }
  | .message p => .message {
      sequenceId := p.sequenceId
      message := PacketMessage.sanitize p.message
      target := p.target
      toId := p.toId
      msgtime := p.msgtime % 2 ^ 64 }
  | .onlineList p => .onlineList { target := p.target }
  | .auth p => .auth { sequenceId := p.sequenceId, userId := unset.userId, token := p.token }
  | .status p => .status { sequenceId := p.sequenceId, target := p.target, status := Status.ofInt p.status.code }
  | .join p => .join { sequenceId := p.sequenceId, target := p.target, autoLogin := false, loadHistory := false }
  | p => p

/-- The number of the status fits an `int`. -/
def Packet.Fits : Packet → Prop
  | .status p => -2 ^ 31 ≤ p.status.code ∧ p.status.code ≤ 2 ^ 31 - 1
  | _ => True

theorem Packet.deserialize_serializeHead (a : Option UInt32) {l : List (Bytes × Json)}
    (hl : l.lookup (utf8 "sequenceId") = none) : Packet.deserialize (.obj (Packet.serializeHead a ++ l)) = .ok a := by
  cases a with
  | none =>
    have hmember : Json.isMember (utf8 "sequenceId") (.obj l) = .ok false := by rw [Json.isMember, hl]; rfl
    change Packet.deserialize (.obj l) = .ok none
    rw [Packet.deserialize, hmember]
    rfl
  | some n =>
    change Packet.deserialize (.obj ((utf8 "sequenceId", Json.uint n) :: l)) = .ok (some n)
    have hmember : Json.isMember (utf8 "sequenceId") (.obj ((utf8 "sequenceId", Json.uint n) :: l)) = .ok true := by
      rw [Json.isMember, List.lookup_cons_self]
      rfl
    rw [Packet.deserialize, hmember, Json.get_cons_self]
    simp only [bind, Except.bind, Json.asUInt_uint]
    rfl

theorem Json.asInt_code (n : Int) (h : -2 ^ 31 ≤ n ∧ n ≤ 2 ^ 31 - 1) : Json.asInt (.int n) = .ok n := if_pos h

theorem Json.asUInt64_time (n : Int) : Json.asUInt64 (.int (n % 2 ^ 64)) = .ok (n % 2 ^ 64).toNat := by
  have hlo : 0 ≤ n % 2 ^ 64 := Int.emod_nonneg _ (by decide)
  have hhi : n % 2 ^ 64 ≤ 2 ^ 64 - 1 := Int.le_sub_one_of_lt (Int.emod_lt_of_pos _ (by decide))
  rw [Json.asUInt64, Json.asInteger, if_pos ⟨hlo, hhi⟩]
  rfl

theorem Json.lookup_cons_ne {key k : Bytes} (h : (key == k) = false) (v : Json) (l : List (Bytes × Json)) :
    ((k, v) :: l).lookup key = l.lookup key := by
  rw [List.lookup_cons, h]

theorem Packet.deserialize_serialize (p : Packet) : Packet.deserialize p.serialize = .ok p.sequenceId := by
  cases p with
  | _ p =>
    apply Packet.deserialize_serializeHead
    simp (disch := (apply utf8_beq; simp)) only [Json.lookup_cons_ne, List.lookup_nil]

theorem PacketMessage.deserialize_serialize (p : PacketMessage) :
    PacketMessage.deserialize p.serialize = .ok {
      sequenceId := p.sequenceId
      message := PacketMessage.sanitize p.message
      target := p.target
      toId := p.toId
      msgtime := (p.msgtime % 2 ^ 64).toNat } := by
  unfold PacketMessage.deserialize
  rw [show Packet.deserialize p.serialize = .ok p.sequenceId from Packet.deserialize_serialize (.message p),
    show p.serialize = .obj (Packet.serializeHead p.sequenceId ++ _) from rfl]
  simp (disch := (apply utf8_beq; simp)) only [Json.get_serializeHead, Json.get_cons_ne, Json.get_cons_self]
  simp only [bind, Except.bind, Json.asUInt_uint, Json.asString_str, Json.asUInt64_time]
  rfl

theorem PacketOnlineList.deserialize_serialize (p : PacketOnlineList) :
    PacketOnlineList.deserialize p.serialize = .ok { target := p.target } := by
  unfold PacketOnlineList.deserialize PacketOnlineList.serialize
  simp (disch := (apply utf8_beq; simp)) only [Json.get_serializeHead, Json.get_cons_ne, Json.get_cons_self]
  rfl

theorem PacketAuth.deserialize_serialize (unset : Unset) (p : PacketAuth) : PacketAuth.deserialize unset p.serialize =
    .ok { sequenceId := p.sequenceId, userId := unset.userId, token := p.token } := by
  unfold PacketAuth.deserialize
  rw [show Packet.deserialize p.serialize = .ok p.sequenceId from Packet.deserialize_serialize (.auth p)]
  unfold PacketAuth.serialize
  simp (disch := (apply utf8_beq; simp)) only [Json.get_serializeHead, Json.get_cons_ne, Json.get_cons_self]
  rfl

theorem PacketStatus.deserialize_serialize (p : PacketStatus)
    (hp : -2 ^ 31 ≤ p.status.code ∧ p.status.code ≤ 2 ^ 31 - 1) :
    PacketStatus.deserialize p.serialize = .ok {
      sequenceId := p.sequenceId, target := p.target, status := Status.ofInt p.status.code } := by
  unfold PacketStatus.deserialize
  rw [show Packet.deserialize p.serialize = .ok p.sequenceId from Packet.deserialize_serialize (.status p)]
  unfold PacketStatus.serialize
  simp (disch := (apply utf8_beq; simp)) only [Json.get_serializeHead, Json.get_cons_ne, Json.get_cons_self]
  simp only [bind, Except.bind, Json.asString_str, Json.asInt_code _ hp]
  rfl

theorem PacketJoin.deserialize_serialize (p : PacketJoin) :
    PacketJoin.deserialize p.serialize = .ok {
      sequenceId := p.sequenceId, target := p.target, autoLogin := false, loadHistory := false } := by
  unfold PacketJoin.deserialize
  rw [show Packet.deserialize p.serialize = .ok p.sequenceId from Packet.deserialize_serialize (.join p)]
  unfold PacketJoin.serialize
  simp (disch := (apply utf8_beq; simp)) only [Json.get_serializeHead, Json.get_cons_ne, Json.get_cons_self]
  rfl

theorem PacketTarget.deserialize_serialize (type : PacketType) (p : PacketTarget) :
    PacketTarget.deserialize (p.serialize type) = .ok p := by
  have hid : Packet.deserialize (p.serialize type) = .ok p.sequenceId := by
    apply Packet.deserialize_serializeHead
    simp (disch := (apply utf8_beq; simp)) only [Json.lookup_cons_ne, List.lookup_nil]
  unfold PacketTarget.deserialize
  rw [hid]
  unfold PacketTarget.serialize
  simp (disch := (apply utf8_beq; simp)) only [Json.get_serializeHead, Json.get_cons_ne, Json.get_cons_self]
  rfl

/-- The server reads every packet it writes, with the fields as they were written. -/
theorem Packet.read_serialize (unset : Unset) (p : Packet) (hp : p.Fits) :
    Packet.read unset p.serialize = .ok (some (p.readBack unset)) := by
  have hcode : ∀ t : PacketType, Json.asInt (.int t.code) = .ok t.code := by
    intro t
    cases t <;> exact Json.asInt_code _ (by decide)
  have hid := p.deserialize_serialize
  unfold Packet.read
  rw [Json.get_type_serialize]
  simp only [bind, Except.bind]
  rw [hcode]
  cases p with
  | error p =>
    change Except.bind (Packet.deserialize (Packet.error p).serialize) _ = _
    rw [hid]
    rfl
  | system p =>
    change Except.bind (Packet.deserialize (Packet.system p).serialize) _ = _
    rw [hid]
    rfl
  | message p =>
    change Except.bind (PacketMessage.deserialize p.serialize) _ = _
    rw [p.deserialize_serialize, Int.toNat_of_nonneg (Int.emod_nonneg _ (by decide))]
    rfl
  | onlineList p =>
    change Except.bind (PacketOnlineList.deserialize p.serialize) _ = _
    rw [p.deserialize_serialize]
    rfl
  | auth p =>
    change Except.bind (PacketAuth.deserialize unset p.serialize) _ = _
    rw [p.deserialize_serialize]
    rfl
  | status p =>
    change Except.bind (PacketStatus.deserialize p.serialize) _ = _
    rw [p.deserialize_serialize hp]
    rfl
  | join p =>
    change Except.bind (PacketJoin.deserialize p.serialize) _ = _
    rw [p.deserialize_serialize]
    rfl
  | leave p =>
    change Except.bind (PacketTarget.deserialize (p.serialize .leave)) _ = _
    rw [PacketTarget.deserialize_serialize]
    rfl
  | createRoom p =>
    change Except.bind (PacketTarget.deserialize (p.serialize .createRoom)) _ = _
    rw [PacketTarget.deserialize_serialize]
    rfl
  | removeRoom p =>
    change Except.bind (PacketTarget.deserialize (p.serialize .removeRoom)) _ = _
    rw [PacketTarget.deserialize_serialize]
    rfl
  | ping sequenceId =>
    change Except.bind (Packet.deserialize (Packet.ping sequenceId).serialize) _ = _
    rw [hid]
    rfl

theorem Packet.read_serialize_away :
    let p : PacketStatus := { sequenceId := some 5, target := utf8 "#room", status := .away, name := utf8 "foo" }
    Packet.read {} (Packet.status p).serialize =
      .ok (some (.status { sequenceId := some 5, target := utf8 "#room", status := .away })) := by
  intro p
  exact Packet.read_serialize {} (.status p) ⟨by decide, by decide⟩

end WsChat
