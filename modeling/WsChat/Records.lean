import WsChat.Lib.JsonText
import WsChat.Gate
import WsChat.Credentials

/-! JSON values in Redis: they are written as a text and read as its first word. -/
namespace WsChat
open Lib Lib.Redis Lib.JsonText

def Redis.getString (st : Store) (now : Int) (key : Bytes) : Option Bytes :=
  match (command st now .get [key]).1 with
  | .bulk reply => some (streamWord reply)
  | _ => none

def Redis.getJson (env : Env) (st : Store) (now : Int) (key : Bytes) : Option Json :=
  match Redis.getString st now key with
  | none => none
  | some s => env.parse s

def Redis.setString (st : Store) (now : Int) (key value : Bytes) (expiration : Int := 0) : Bool × Store :=
  let (reply, st) :=
    if 0 < expiration then command st now .setex [decimal expiration, value]
    else command st now .set [key, value]
  (reply = .ok, st)

def Redis.setJson (env : Env) (st : Store) (now : Int) (key : Bytes) (value : Json) (expiration : Int := 0) :
    Bool × Store :=
  Redis.setString st now key (env.write value) expiration

section
variable {env : Env} {st : Store} {now : Int} {key s : Bytes}

theorem Redis.getString_value (h : st.value now key = some s) : Redis.getString st now key = some (streamWord s) := by
  simp [Redis.getString, command, h]

theorem Redis.getJson_value (env : Env) (h : st.value now key = some s) :
    Redis.getJson env st now key = env.parse (streamWord s) := by
  rw [Redis.getJson, Redis.getString_value h]

theorem Redis.setJson_value (env : Env) (st : Store) (now later : Int) (key : Bytes) (v : Json) :
    (Redis.setJson env st now key v).1 = true ∧
      (Redis.setJson env st now key v).2.value later key = some (env.write v) := by
  simp [Redis.setJson, Redis.setString, command, Store.value, AList.lookup_insert, Entry.live]

end

/-- What a session record that was read stands for, and nothing where none was. -/
def PacketAuth.recordUid : Option Json → Except AuthExit Int
  | none => .ok 0
  | some session => (PacketAuth.sessionUid session).mapError fun _ => .failed .std

theorem PacketAuth.findUid_session {p : PacketAuth} {sv : AuthServices} {id s : Bytes} (env : Env) (ip : Bytes)
    (ht : p.token = []) (hu : p.ukey = []) (ha : p.apiKey = []) (hp : ¬ (p.name ≠ [] ∧ p.password ≠ []))
    (h : sv.redisGet (utf8 "session:" ++ id) = .ok (some s)) :
    ((PacketAuth.findUid env sv ip (some id) p).run {}).1 = PacketAuth.recordUid (env.parse (streamWord s)) := by
  unfold PacketAuth.findUid
  rw [if_neg (not_not.mpr ht), if_neg (not_not.mpr hu), if_neg (not_not.mpr ha), if_neg hp]
  dsimp only
  unfold AuthM.callStd
  rw [h]
  simp only [AuthM.call, Except.mapError, bind_assoc, pure_bind]
  unfold ExceptT.run
  cases hread : env.parse (streamWord s) with
  | none => rfl
  | some session =>
    simp only [PacketAuth.recordUid]
    cases huid : PacketAuth.sessionUid session with
    | ok uid => rfl
    | error e => rfl

theorem PacketAuth.recordUid_none_iff (session : Json) :
    PacketAuth.recordUid none = PacketAuth.recordUid (some session) ↔ PacketAuth.sessionUid session = .ok 0 := by
  unfold PacketAuth.recordUid
  cases huid : PacketAuth.sessionUid session with
  | ok uid => simp [huid, Except.mapError, eq_comm]
  | error e => simp [huid, Except.mapError]

/-- What Redis holds as a JSON document is read back whole exactly if no blank stands in its value, which for a
value that was written means in none of its strings and keys. A session of a cookie stands for
the same account then, or if its record names none. -/
theorem getJson_iff (env : Env) (hparse : Reads env.parse) (w t w' : Bytes) (hw : Blank w) (ht : Text .value t)
    (hw' : Blank w') (v : Json) (hv : env.parse (w ++ t ++ w') = some v) :
    (∀ st now key, Store.value st now key = some (w ++ t ++ w') →
      (Redis.getJson env st now key = some v ↔ ∀ b ∈ t, ¬ isSpace b)) ∧
    (∀ st now later key members, v = .obj members → env.write v = w ++ t ++ w' →
      Compact t v →
      let answer := Redis.setJson env st now key v
      answer.1 = true ∧ (Redis.getJson env answer.2 later key = some v ↔ ¬ hasBlank v)) ∧
    (∀ (p : PacketAuth) (sv : AuthServices) (ip id : Bytes),
      p.token = [] → p.ukey = [] → p.apiKey = [] → ¬ (p.name ≠ [] ∧ p.password ≠ []) →
      sv.redisGet (utf8 "session:" ++ id) = .ok (some (w ++ t ++ w')) →
      (((PacketAuth.findUid env sv ip (some id) p).run {}).1 = PacketAuth.recordUid (some v) ↔
        (∀ b ∈ t, ¬ isSpace b) ∨ PacketAuth.sessionUid v = .ok 0)) := by
  have hword : env.parse (streamWord (w ++ t ++ w')) = some v ↔ ∀ b ∈ t, ¬ isSpace b :=
    hparse.parse_streamWord_iff hw ht hw' hv
  refine ⟨?_, ?_, ?_⟩
  · intro st now key hst
    rw [Redis.getJson_value env hst, hword]
  · intro st now later key members _ hwrite hblank
    obtain ⟨hdone, hvalue⟩ := Redis.setJson_value env st now later key v
    rw [hwrite] at hvalue
    refine ⟨hdone, ?_⟩
    have hcompact : (∃ b ∈ t, isSpace b) ↔ hasBlank v := hblank
    rw [Redis.getJson_value env hvalue, hword, ← hcompact]
    simp
  · intro p sv ip id htoken hukey hapi hlogin hget
    rw [PacketAuth.findUid_session env ip htoken hukey hapi hlogin hget]
    by_cases hnone : ∀ b ∈ t, ¬ isSpace b
    · rw [hword.mpr hnone]
      exact ⟨fun _ => .inl hnone, fun _ => rfl⟩
    · have hblank : ∃ b ∈ t, isSpace b := by simpa using hnone
      rw [ht.streamWord_eq hw hw', hparse.parse_word ht hblank, PacketAuth.recordUid_none_iff]
      exact ⟨.inr, fun h => h.resolve_left hnone⟩

namespace Sample

def record : Json := .obj [(utf8 "user_id", .str (utf8 "7"))]

def recordText : Bytes := utf8 "\x7b\"user_id\":\"7\"\x7d"

def spacedText : Bytes := utf8 "\x7b\"user_id\": \"7\"\x7d"

def readsRecord : Env := { surroundings with
  parse := fun s => if s.filter (! isSpace ·) = recordText then some record else none
  write := fun _ => recordText ++ [10] }

theorem text_of_member {w : Bytes} (hw : Blank w) :
    Text .value (123 :: ((quoted (utf8 "user_id") ++ 58 :: (w ++ quoted (utf8 "7"))) ++ [125])) := by
  have hkey : Chars (utf8 "user_id") := by
    repeat first | exact .nil | refine .plain (by decide) (by decide) (by decide) ?_
  have hvalue : Chars (utf8 "7") := .plain (by decide) (by decide) (by decide) .nil
  have hnone : Blank [] := by simp [Blank]
  have hmember := Text.member hnone hkey hnone (.padded hw (.string hvalue) hnone)
  simp only [List.nil_append, List.append_nil] at hmember
  exact .object (.lastMember hmember)

theorem recordText_value : Text .value recordText := text_of_member (w := []) (by simp [Blank])

theorem spacedText_value : Text .value spacedText := text_of_member (w := [32]) (by simp [Blank, isBlank])

theorem foldl_scan_filter {s : Bytes} {st : Nat × Mode} (hst : st.2 ≠ .escaped) (h : ∀ b ∈ s, b ≠ 92) :
    s.foldl scan st = (s.filter (! isSpace ·)).foldl scan st := by
  induction s generalizing st with
  | nil => rfl
  | cons b s ih =>
    have hb : b ≠ 92 := h b List.mem_cons_self
    have hrest : ∀ b ∈ s, b ≠ 92 := fun b' hb' => h b' (List.mem_cons_of_mem b hb')
    obtain ⟨d, mode⟩ := st
    by_cases hspace : isSpace b
    · have hstill : scan (d, mode) b = (d, mode) := by
        have hneutral : neutral b := by
          simp only [isSpace, Bool.or_eq_true, Bool.and_eq_true, decide_eq_true_eq, beq_iff_eq, ← UInt8.toNat_inj,
            UInt8.le_iff_toNat_le] at hspace
          simp [neutral, ← UInt8.toNat_inj] at hspace ⊢
          omega
        cases mode with
        | plain => exact scan_neutral hneutral
        | string =>
          simp only [neutral, Bool.and_eq_true, bne_iff_ne, ne_eq] at hneutral
          simp [scan, hb, hneutral]
        | escaped => exact absurd rfl hst
      rw [List.foldl_cons, hstill, List.filter_cons_of_neg (by simpa using hspace)]
      exact ih hst hrest
    · have hnext : (scan (d, mode) b).2 ≠ .escaped := by
        cases mode with
        | plain =>
          simp only [scan]
          split_ifs <;> simp
        | string =>
          simp only [scan, if_neg hb]
          split_ifs <;> simp
        | escaped => exact absurd rfl hst
      rw [List.filter_cons_of_pos (by simpa using hspace), List.foldl_cons, List.foldl_cons]
      exact ih hnext hrest

theorem readsRecord_reads : Reads readsRecord.parse := by
  constructor
  · intro w t w' hw _ hw'
    have hblank : ∀ {s : Bytes}, Blank s → s.filter (! isSpace ·) = [] := by
      intro s hs
      exact List.filter_eq_nil_iff.mpr (by simpa using hs.space)
    have hfilter : (w ++ t ++ w').filter (! isSpace ·) = t.filter (! isSpace ·) := by
      rw [List.filter_append, List.filter_append, hblank hw, hblank hw', List.nil_append, List.append_nil]
    simp only [readsRecord, hfilter]
  · intro t u v _ _ hread
    have hfilter : u.filter (! isSpace ·) = recordText := by
      by_contra hne
      simp [readsRecord, hne] at hread
    have hbyte : recordText.all fun b => b != 92 := by decide +kernel
    have hplain : ∀ b ∈ u, b ≠ 92 := by
      intro b hb he
      have hin : b ∈ u.filter (! isSpace ·) := List.mem_filter.mpr ⟨hb, by rw [he]; decide⟩
      rw [hfilter] at hin
      simpa [he] using List.all_eq_true.mp hbyte b hin
    refine ⟨u, List.prefix_refl u, ?_, ?_⟩
    · have hin : (123 : UInt8) ∈ u.filter (! isSpace ·) := by
        rw [hfilter]
        decide
      exact ⟨123, (List.mem_filter.mp hin).1, by decide⟩
    · rw [Shut, foldl_scan_filter (by decide) hplain, hfilter]
      decide

def holds (text : Bytes) : AuthServices := { bob with redisGet := fun _ => .ok (some text) }

end Sample

theorem getJson_iff_session :
    let env := Sample.readsRecord
    let answer := Redis.setJson env ∅ 0 (utf8 "session:1") Sample.record
    answer.1 = true ∧ Redis.getJson env answer.2 1 (utf8 "session:1") = some Sample.record ∧
      ((PacketAuth.findUid env (Sample.holds (Sample.recordText ++ [10])) [] (some (utf8 "1")) {}).run {}).1 =
        PacketAuth.recordUid (some Sample.record) := by
  intro env answer
  have hnone : Blank [] := by simp [Blank]
  have hend : Blank [10] := by simp [Blank, isBlank]
  have hwhole : Sample.recordText.all fun b => !isSpace b := by decide +kernel
  have hcompact : ∀ b ∈ Sample.recordText, ¬ isSpace b := by simpa using hwhole
  have hread : env.parse ([] ++ Sample.recordText ++ [10]) = some Sample.record := by
    rw [Sample.readsRecord_reads.blanks [] _ [10] hnone Sample.recordText_value hend]
    rfl
  have h := getJson_iff env Sample.readsRecord_reads [] Sample.recordText [10] hnone Sample.recordText_value hend
    Sample.record hread
  have hblank : Compact Sample.recordText Sample.record := by
    have hfalse : hasBlank Sample.record = false := by decide
    simpa [Compact, hfalse] using hcompact
  have hset := h.2.1 ∅ 0 1 (utf8 "session:1") _ rfl rfl hblank
  refine ⟨hset.1, hset.2.mpr (by decide), ?_⟩
  exact (h.2.2 {} (Sample.holds (Sample.recordText ++ [10])) [] (utf8 "1") rfl rfl rfl (by decide) rfl).mpr
    (.inl hcompact)

/-- The same record with a blank after the colon is not read back, and stands for nobody. -/
theorem getJson_fails_blank :
    let env := Sample.readsRecord
    let st := AList.singleton (utf8 "session:1") ({ value := Sample.spacedText } : Entry)
    Reads env.parse ∧ Document Sample.spacedText ∧ env.parse Sample.spacedText = some Sample.record ∧
      Store.value st 0 (utf8 "session:1") = some Sample.spacedText ∧
      Redis.getJson env st 0 (utf8 "session:1") = none ∧
      ((PacketAuth.findUid env (Sample.holds Sample.spacedText) [] (some (utf8 "1")) {}).run {}).1 = .ok 0 ∧
      PacketAuth.recordUid (some Sample.record) = .ok 7 := by
  intro env st
  have hnone : Blank [] := by simp [Blank]
  have hdocument : Document Sample.spacedText := by
    have h := Text.padded hnone Sample.spacedText_value hnone
    rwa [List.nil_append, List.append_nil] at h
  exact ⟨Sample.readsRecord_reads, hdocument, rfl, rfl, rfl, rfl, rfl⟩

end WsChat
