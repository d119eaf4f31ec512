import WsChat.Lib.Json
import Mathlib.Data.List.TakeWhile

/-! Texts of JSON values, and a scanner that only counts brackets and quotes: on the way through
a string, an array or an object something is always open. -/
namespace Lib.JsonText

mutual

def hasBlank : Json → Bool
  | .str s => s.contains 32
  | .arr items => anyHasBlank items
  | .obj members => anyMemberHasBlank members
  | _ => false

def anyHasBlank : List Json → Bool
  | [] => false
  | v :: vs => hasBlank v || anyHasBlank vs

def anyMemberHasBlank : List (Bytes × Json) → Bool
  | [] => false
  | (key, v) :: ms => key.contains 32 || hasBlank v || anyMemberHasBlank ms

end

/-- What is promised of a writer: blanks stand in the text only where a string or a key has them. -/
def Compact (t : Bytes) (v : Json) : Prop := (∃ b ∈ t, isSpace b) ↔ hasBlank v

def isBlank (b : UInt8) : Bool := b == 32 || b == 9 || b == 10 || b == 13

def Blank (s : Bytes) : Prop := ∀ b ∈ s, isBlank b

def isHexDigit (b : UInt8) : Bool := isDigit b || (65 ≤ b && b ≤ 70) || (97 ≤ b && b ≤ 102)

inductive Chars : Bytes → Prop
  | nil : Chars []
  | plain {b s} (hb : 32 ≤ b) (hquote : b ≠ 34) (hescape : b ≠ 92) (h : Chars s) : Chars (b :: s)
  | escape {e s} (he : e ∈ utf8 "\"\\/bfnrt") (h : Chars s) : Chars (92 :: e :: s)
  | unicode {x s} (hx : ∀ b ∈ x, isHexDigit b) (hlen : x.length = 4) (h : Chars s) : Chars (92 :: 117 :: (x ++ s))

def quoted (s : Bytes) : Bytes := 34 :: (s ++ [34])

def Digits (s : Bytes) : Prop := s ≠ [] ∧ ∀ b ∈ s, isDigit b

def Sign (s : Bytes) : Prop := s = [] ∨ s = [43] ∨ s = [45]

structure Number (t : Bytes) : Prop where
  parts : ∃ minus whole fraction exponent, t = minus ++ whole ++ fraction ++ exponent ∧
    (minus = [] ∨ minus = [45]) ∧ Digits whole ∧ (whole.head? = some 48 → whole = [48]) ∧
    (fraction = [] ∨ ∃ d, Digits d ∧ fraction = 46 :: d) ∧
    (exponent = [] ∨ ∃ e sign d, (e = 101 ∨ e = 69) ∧ Sign sign ∧ Digits d ∧ exponent = e :: (sign ++ d))

def literals : List Bytes := [utf8 "null", utf8 "true", utf8 "false"]

inductive Part where
  | value | padded | items | member | members

inductive Text : Part → Bytes → Prop
  | literal {t} (h : t ∈ literals) : Text .value t
  | number {t} (h : Number t) : Text .value t
  | string {s} (h : Chars s) : Text .value (quoted s)
  | emptyArray {w} (hw : Blank w) : Text .value (91 :: (w ++ [93]))
  | array {s} (h : Text .items s) : Text .value (91 :: (s ++ [93]))
  | emptyObject {w} (hw : Blank w) : Text .value (123 :: (w ++ [125]))
  | object {s} (h : Text .members s) : Text .value (123 :: (s ++ [125]))
  | padded {w t w'} (hw : Blank w) (h : Text .value t) (hw' : Blank w') : Text .padded (w ++ t ++ w')
  | item {s} (h : Text .padded s) : Text .items s
  | items {s s'} (h : Text .padded s) (h' : Text .items s') : Text .items (s ++ 44 :: s')
  | member {w k w' s} (hw : Blank w) (hk : Chars k) (hw' : Blank w') (h : Text .padded s) :
      Text .member (w ++ quoted k ++ w' ++ 58 :: s)
  | lastMember {s} (h : Text .member s) : Text .members s
  | members {s s'} (h : Text .member s) (h' : Text .members s') : Text .members (s ++ 44 :: s')

abbrev Document (s : Bytes) : Prop := Text .padded s

inductive Mode where
  | plain | string | escaped
  deriving DecidableEq

/-- The number of open brackets, and whether a string is open. -/
def scan (st : Nat × Mode) (b : UInt8) : Nat × Mode :=
  match st.2 with
  | .escaped => (st.1, .string)
  | .string => if b = 92 then (st.1, .escaped) else if b = 34 then (st.1, .plain) else (st.1, .string)
  | .plain =>
    if b = 34 then (st.1, .string)
    else if b = 91 ∨ b = 123 then (st.1 + 1, .plain)
    else if b = 93 ∨ b = 125 then (st.1 - 1, .plain)
    else (st.1, .plain)

/-- Everything that was opened is closed. -/
def Shut (s : Bytes) : Prop := s.foldl scan (0, .plain) = (0, .plain)

/-- What is promised of a reader: blanks around a value do not matter, and of the front of a
text only something that is closed is read. -/
structure Reads (parse : Bytes → Option Json) : Prop where
  blanks : ∀ w t w', Blank w → Text .value t → Blank w' → parse (w ++ t ++ w') = parse t
  closed : ∀ t u v, Text .value t → u <+: t → parse u = some v →
    ∃ front, front <+: u ∧ (∃ b ∈ front, ¬ isSpace b) ∧ Shut front

structure Inside (d : Nat) (s : Bytes) : Prop where
  back : s.foldl scan (d, .string) = (d, .string)
  still : ∀ u, u <+: s → (u.foldl scan (d, .string)).1 = d ∧ (u.foldl scan (d, .string)).2 ≠ .plain

structure Level (d : Nat) (s : Bytes) : Prop where
  back : s.foldl scan (d, .plain) = (d, .plain)
  above : ∀ u, u <+: s → d ≤ (u.foldl scan (d, .plain)).1

section
variable {d : Nat} {s t : Bytes} {b : UInt8}

theorem Inside.nil : Inside d [] := by
  refine ⟨rfl, ?_⟩
  intro u hu
  rw [List.prefix_nil.mp hu]
  simp

theorem Inside.plain (h : Inside d s) (hquote : b ≠ 34) (hescape : b ≠ 92) : Inside d (b :: s) := by
  have hscan : scan (d, .string) b = (d, .string) := by simp [scan, hquote, hescape]
  constructor
  · rw [List.foldl_cons, hscan, h.back]
  · intro u hu
    cases List.prefix_cons_iff.mp hu with
    | inl hnil => simp [hnil]
    | inr hcons =>
      obtain ⟨u', rfl, hu'⟩ := hcons
      rw [List.foldl_cons, hscan]
      exact h.still u' hu'

theorem Inside.escape (h : Inside d s) (e : UInt8) : Inside d (92 :: e :: s) := by
  have hscan : scan (scan (d, .string) 92) e = (d, .string) := by simp [scan]
  constructor
  · rw [List.foldl_cons, List.foldl_cons, hscan, h.back]
  · intro u hu
    cases List.prefix_cons_iff.mp hu with
    | inl hnil => simp [hnil]
    | inr hcons =>
      obtain ⟨u', rfl, hu'⟩ := hcons
      cases List.prefix_cons_iff.mp hu' with
      | inl hnil => simp [hnil, scan]
      | inr hcons' =>
        obtain ⟨u'', rfl, hu''⟩ := hcons'
        rw [List.foldl_cons, List.foldl_cons, hscan]
        exact h.still u'' hu''

theorem Inside.digits (h : Inside d s) {x : Bytes} (hx : ∀ b ∈ x, isHexDigit b) : Inside d (x ++ s) := by
  induction x with
  | nil => exact h
  | cons b x ih =>
    have hb : isHexDigit b := hx b List.mem_cons_self
    have hinside := ih fun b' hb' => hx b' (List.mem_cons_of_mem b hb')
    refine hinside.plain ?_ ?_
    · intro he
      rw [he] at hb
      exact absurd hb (by decide)
    · intro he
      rw [he] at hb
      exact absurd hb (by decide)

theorem Chars.inside (h : Chars s) (d : Nat) : Inside d s := by
  induction h with
  | nil => exact Inside.nil
  | plain _ hquote hescape _ ih => exact ih.plain hquote hescape
  | escape _ _ ih => exact ih.escape _
  | unicode hx _ _ ih => exact (ih.digits hx).escape _

theorem Level.append (h : Level d s) (h' : Level d t) : Level d (s ++ t) := by
  constructor
  · rw [List.foldl_append, h.back, h'.back]
  · intro u hu
    cases List.prefix_or_prefix_of_prefix hu (List.prefix_append s t) with
    | inl hfront => exact h.above u hfront
    | inr hpast =>
      obtain ⟨q, rfl⟩ := hpast
      rw [List.foldl_append, h.back]
      exact h'.above q ((List.prefix_append_right_inj s).mp hu)

def neutral (b : UInt8) : Bool := b != 34 && b != 91 && b != 123 && b != 93 && b != 125

theorem scan_neutral (hb : neutral b) : scan (d, .plain) b = (d, .plain) := by
  simp only [neutral, Bool.and_eq_true, bne_iff_ne, ne_eq] at hb
  simp [scan, hb]

theorem foldl_neutral (h : ∀ b ∈ s, neutral b) : s.foldl scan (d, .plain) = (d, .plain) := by
  induction s with
  | nil => rfl
  | cons b s ih =>
    rw [List.foldl_cons, scan_neutral (h b List.mem_cons_self)]
    exact ih fun b' hb' => h b' (List.mem_cons_of_mem b hb')

theorem Level.neutral (h : ∀ b ∈ s, neutral b) (d : Nat) : Level d s := by
  refine ⟨foldl_neutral h, ?_⟩
  intro u hu
  exact Nat.le_of_eq (congrArg Prod.fst (foldl_neutral fun b hb => h b (hu.subset hb))).symm

theorem Level.cons_neutral (h : Level d s) (hb : JsonText.neutral b) : Level d (b :: s) :=
  (Level.neutral (s := [b]) (by simpa using hb) d).append h

theorem Blank.level (h : Blank s) (d : Nat) : Level d s := by
  refine Level.neutral (fun b hb => ?_) d
  have hblank := h b hb
  simp only [isBlank, Bool.or_eq_true, beq_iff_eq] at hblank
  obtain ((rfl | rfl) | rfl) | rfl := hblank <;> decide

theorem Level.enclose (h : Level (d + 1) s) {a z : UInt8} (ha : a = 91 ∨ a = 123) (hz : z = 93 ∨ z = 125) :
    Level d (a :: (s ++ [z])) := by
  have hopen : scan (d, .plain) a = (d + 1, .plain) := by
    cases ha with
    | inl he => simp [scan, he]
    | inr he => simp [scan, he]
  have hclose : scan (d + 1, .plain) z = (d, .plain) := by
    cases hz with
    | inl he => simp [scan, he]
    | inr he => simp [scan, he]
  constructor
  · rw [List.foldl_cons, hopen, List.foldl_append, h.back, List.foldl_cons, hclose, List.foldl_nil]
  · intro u hu
    cases List.prefix_cons_iff.mp hu with
    | inl hnil => simp [hnil]
    | inr hcons =>
      obtain ⟨u', rfl, hu'⟩ := hcons
      rw [List.foldl_cons, hopen]
      cases List.prefix_concat_iff.mp hu' with
      | inl hall =>
        rw [hall, List.foldl_append, h.back, List.foldl_cons, hclose]
        exact Nat.le_refl d
      | inr hfront => exact Nat.le_of_succ_le (h.above u' hfront)

theorem Chars.level (h : Chars s) (d : Nat) : Level d (quoted s) := by
  have hinside := h.inside d
  have hopen : scan (d, .plain) 34 = (d, .string) := by simp [scan]
  have hclose : scan (d, .string) 34 = (d, .plain) := by simp [scan]
  constructor
  · rw [quoted, List.foldl_cons, hopen, List.foldl_append, hinside.back, List.foldl_cons, hclose, List.foldl_nil]
  · intro u hu
    cases List.prefix_cons_iff.mp hu with
    | inl hnil => simp [hnil]
    | inr hcons =>
      obtain ⟨u', rfl, hu'⟩ := hcons
      rw [List.foldl_cons, hopen]
      cases List.prefix_concat_iff.mp hu' with
      | inl hall =>
        rw [hall, List.foldl_append, hinside.back, List.foldl_cons, hclose]
        exact Nat.le_refl d
      | inr hfront => exact Nat.le_of_eq (hinside.still u' hfront).1.symm

def numeric (b : UInt8) : Bool := isDigit b || b == 43 || b == 45 || b == 46 || b == 69 || b == 101

theorem isDigit.numeric (h : isDigit b) : numeric b := by simp [JsonText.numeric, h]

theorem Number.numeric (h : Number t) : ∀ b ∈ t, numeric b := by
  obtain ⟨minus, whole, fraction, exponent, rfl, hminus, hwhole, -, hfraction, hexponent⟩ := h.parts
  have hdigits : ∀ {d : Bytes}, Digits d → ∀ b ∈ d, JsonText.numeric b :=
    fun hd b hb => isDigit.numeric (hd.2 b hb)
  intro b hb
  simp only [List.mem_append] at hb
  obtain ((hb | hb) | hb) | hb := hb
  · cases hminus with
    | inl he => simp [he] at hb
    | inr he =>
      rw [he, List.mem_singleton] at hb
      rw [hb]
      decide
  · exact hdigits hwhole b hb
  · cases hfraction with
    | inl he => simp [he] at hb
    | inr hd =>
      obtain ⟨d, hd, rfl⟩ := hd
      cases List.mem_cons.mp hb with
      | inl he =>
        rw [he]
        decide
      | inr hb => exact hdigits hd b hb
  · cases hexponent with
    | inl he => simp [he] at hb
    | inr hd =>
      obtain ⟨e, sign, d, he, hsign, hd, rfl⟩ := hd
      simp only [List.mem_cons, List.mem_append] at hb
      obtain rfl | hb | hb := hb
      · obtain rfl | rfl := he <;> decide
      · obtain rfl | rfl | rfl := hsign
        · cases hb
        · rw [List.mem_singleton.mp hb]
          decide
        · rw [List.mem_singleton.mp hb]
          decide
      · exact hdigits hd b hb

theorem neutral_of_numeric : ∀ b : UInt8, numeric b → neutral b ∧ ¬ isSpace b := by
  intro b hb
  simp only [numeric, isDigit, Bool.or_eq_true, Bool.and_eq_true, decide_eq_true_eq, beq_iff_eq,
    ← UInt8.toNat_inj, UInt8.le_iff_toNat_le] at hb
  simp [neutral, isSpace, ← UInt8.toNat_inj, UInt8.le_iff_toNat_le] at hb ⊢
  omega

theorem literal_bytes (h : t ∈ literals) : t ≠ [] ∧ ∀ b ∈ t, neutral b ∧ ¬ isSpace b := by
  have hall : literals.all fun t => t != [] && t.all fun b => neutral b && !isSpace b := by decide
  simpa using List.all_eq_true.mp hall t h

theorem Text.level {k : Part} (h : Text k s) : ∀ d, Level d s := by
  induction h with
  | literal ht => exact Level.neutral fun b hb => ((literal_bytes ht).2 b hb).1
  | number ht => exact Level.neutral fun b hb => (neutral_of_numeric b (ht.numeric b hb)).1
  | string hs => exact hs.level
  | emptyArray hw => exact fun d => (hw.level _).enclose (.inl rfl) (.inl rfl)
  | array _ ih => exact fun d => (ih _).enclose (.inl rfl) (.inl rfl)
  | emptyObject hw => exact fun d => (hw.level _).enclose (.inr rfl) (.inr rfl)
  | object _ ih => exact fun d => (ih _).enclose (.inr rfl) (.inr rfl)
  | padded hw _ hw' ih => exact fun d => ((hw.level d).append (ih d)).append (hw'.level d)
  | item _ ih => exact ih
  | items _ _ ih ih' => exact fun d => (ih d).append ((ih' d).cons_neutral (by decide))
  | member hw hk hw' _ ih =>
    exact fun d => (((hw.level d).append (hk.level d)).append (hw'.level d)).append ((ih d).cons_neutral (by decide))
  | lastMember _ ih => exact ih
  | members _ _ ih ih' => exact fun d => (ih d).append ((ih' d).cons_neutral (by decide))

theorem Level.open_front (h : Level 1 s) {a : UInt8} (ha : a = 91 ∨ a = 123) {u : Bytes} (hu : u <+: s) :
    ¬ Shut (a :: u) := by
  have hopen : scan (0, .plain) a = (1, .plain) := by
    cases ha with
    | inl he => simp [scan, he]
    | inr he => simp [scan, he]
  intro hshut
  rw [Shut, List.foldl_cons, hopen] at hshut
  have habove := h.above u hu
  rw [hshut] at habove
  exact absurd habove (by decide)

theorem Chars.open_front (h : Chars s) {u : Bytes} (hu : u <+: s) : ¬ Shut (34 :: u) := by
  intro hshut
  have hstill := ((h.inside 0).still u hu).2
  rw [Shut, List.foldl_cons] at hshut
  exact hstill (congrArg Prod.snd hshut)

theorem Text.word_or_enclosed (h : Text .value t) :
    (t ≠ [] ∧ ∀ b ∈ t, ¬ isSpace b) ∨
      ∃ a s z, t = a :: (s ++ [z]) ∧ ¬ isSpace a ∧ ¬ isSpace z ∧ ∀ u, u <+: s → ¬ Shut (a :: u) := by
  cases h with
  | literal ht => exact .inl ⟨(literal_bytes ht).1, fun b hb => ((literal_bytes ht).2 b hb).2⟩
  | number ht =>
    left
    constructor
    · obtain ⟨minus, whole, fraction, exponent, rfl, -, hwhole, -⟩ := ht.parts
      simp [hwhole.1]
    · exact fun b hb => (neutral_of_numeric b (ht.numeric b hb)).2
  | string hs => exact .inr ⟨34, _, 34, rfl, by decide, by decide, fun u hu => hs.open_front hu⟩
  | emptyArray hw =>
    exact .inr ⟨91, _, 93, rfl, by decide, by decide, fun u hu => (hw.level 1).open_front (.inl rfl) hu⟩
  | array h => exact .inr ⟨91, _, 93, rfl, by decide, by decide, fun u hu => (h.level 1).open_front (.inl rfl) hu⟩
  | emptyObject hw =>
    exact .inr ⟨123, _, 125, rfl, by decide, by decide, fun u hu => (hw.level 1).open_front (.inr rfl) hu⟩
  | object h => exact .inr ⟨123, _, 125, rfl, by decide, by decide, fun u hu => (h.level 1).open_front (.inr rfl) hu⟩

theorem Blank.space (h : Blank s) : ∀ b ∈ s, isSpace b := by
  intro b hb
  have hblank := h b hb
  simp only [isBlank, Bool.or_eq_true, beq_iff_eq] at hblank
  obtain ((rfl | rfl) | rfl) | rfl := hblank <;> decide

theorem Text.head_not_space (h : Text .value t) : ∃ a s, t = a :: s ∧ ¬ isSpace a := by
  cases h.word_or_enclosed with
  | inl hword =>
    cases t with
    | nil => exact absurd rfl hword.1
    | cons a s => exact ⟨a, s, rfl, hword.2 a List.mem_cons_self⟩
  | inr henclosed =>
    obtain ⟨a, s, z, he, ha, -, -⟩ := henclosed
    exact ⟨a, s ++ [z], he, ha⟩

theorem Text.streamWord_eq {w w' : Bytes} (hw : Blank w) (h : Text .value t) (hw' : Blank w') :
    streamWord (w ++ t ++ w') = t.takeWhile (! isSpace ·) := by
  obtain ⟨a, s, rfl, ha⟩ := h.head_not_space
  have hdrop : (w ++ a :: s ++ w').dropWhile isSpace = a :: s ++ w' := by
    rw [List.append_assoc, List.dropWhile_append_of_pos hw.space]
    exact List.dropWhile_cons_of_neg ha
  have hback : w'.takeWhile (! isSpace ·) = [] := by
    cases w' with
    | nil => rfl
    | cons b w' => exact List.takeWhile_cons_of_neg (by simp [hw'.space b List.mem_cons_self])
  rw [streamWord, hdrop, List.takeWhile_append, hback, List.append_nil]
  split
  · rename_i hlen
    exact ((List.takeWhile_prefix _).eq_of_length hlen).symm
  · rfl

theorem Reads.parse_word {parse : Bytes → Option Json} (hparse : Reads parse) (h : Text .value t)
    (hblank : ∃ b ∈ t, isSpace b) : parse (t.takeWhile (! isSpace ·)) = none := by
  obtain ⟨b, hb, hspace⟩ := hblank
  cases h.word_or_enclosed with
  | inl hword => exact absurd hspace (hword.2 b hb)
  | inr henclosed =>
    obtain ⟨a, s, z, rfl, ha, hz, hopen⟩ := henclosed
    have hfront : (a :: (s ++ [z])).takeWhile (! isSpace ·) = a :: (s ++ [z]).takeWhile (! isSpace ·) :=
      List.takeWhile_cons_of_pos (by simpa using ha)
    have hs : (s ++ [z]).takeWhile (! isSpace ·) <+: s := by
      cases List.prefix_concat_iff.mp (List.takeWhile_prefix (l := s ++ [z]) (! isSpace ·)) with
      | inl hall =>
        have hnone : ∀ b ∈ s ++ [z], ¬ isSpace b := by
          intro b hb
          rw [← hall] at hb
          simpa using List.mem_takeWhile_imp hb
        cases List.mem_cons.mp hb with
        | inl he => exact absurd (he ▸ hspace) ha
        | inr hb => exact absurd hspace (hnone b hb)
      | inr hfront => exact hfront
    cases hread : parse ((a :: (s ++ [z])).takeWhile (! isSpace ·)) with
    | none => rfl
    | some v =>
      obtain ⟨front, hprefix, ⟨c, hc, -⟩, hshut⟩ := hparse.closed _ _ v h (List.takeWhile_prefix _) hread
      rw [hfront] at hprefix
      cases List.prefix_cons_iff.mp hprefix with
      | inl hnil =>
        rw [hnil] at hc
        cases hc
      | inr hcons =>
        obtain ⟨u, rfl, hu⟩ := hcons
        exact absurd hshut (hopen u (hu.trans hs))

/-- The first word of a document is read as the whole exactly if no blank stands in the value. -/
theorem Reads.parse_streamWord_iff {parse : Bytes → Option Json} (hparse : Reads parse) {w w' : Bytes} {v : Json}
    (hw : Blank w) (h : Text .value t) (hw' : Blank w') (hv : parse (w ++ t ++ w') = some v) :
    parse (streamWord (w ++ t ++ w')) = some v ↔ ∀ b ∈ t, ¬ isSpace b := by
  rw [h.streamWord_eq hw hw']
  by_cases hblank : ∃ b ∈ t, isSpace b
  · rw [hparse.parse_word h hblank]
    simpa using hblank
  · have hnone : ∀ b ∈ t, ¬ isSpace b := fun b hb hspace => hblank ⟨b, hb, hspace⟩
    have hall : t.takeWhile (! isSpace ·) = t := List.takeWhile_eq_self_iff.mpr (by simpa using hnone)
    rw [hall, ← hparse.blanks w t w' hw h hw', hv]
    exact ⟨fun _ => hnone, fun _ => rfl⟩

end

end Lib.JsonText
