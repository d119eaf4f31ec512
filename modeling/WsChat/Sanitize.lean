import WsChat.Packets
import WsChat.Lib.Matching

/-! The text of a message after decoding: well formed, short, without long stretches of
newlines, and a fixed point of the decoding. -/
namespace WsChat
open Lib Lib.Utf8

section
variable {b : UInt8}

theorem replaceInvalidUtf8From_of_wellFormed (b : UInt8) {s : Bytes} (h : WellFormed s) (fuel : Nat) :
    replaceInvalidUtf8From b fuel s = s := by
  have hend : s.drop (findInvalid s) = [] := by
    rw [(wellFormed_iff s).mp h, List.drop_length]
  cases fuel with
  | zero => rfl
  | succ fuel => simp only [replaceInvalidUtf8From, hend]

theorem replaceInvalidUtf8From_turn (b : UInt8) {s : Bytes} (h : ¬ WellFormed s) :
    ∃ u a t, s = u ++ a :: t ∧ WellFormed u ∧ charLength (a :: t) = none ∧
      ∀ fuel, replaceInvalidUtf8From b (fuel + 1) s = u ++ b :: replaceInvalidUtf8From b fuel t := by
  obtain ⟨_, hwell, hnone⟩ := findInvalid_spec s
  cases hd : s.drop (findInvalid s) with
  | nil =>
    have htake : s.take (findInvalid s) = s := by
      rw [← List.append_nil (s.take _), ← hd, List.take_append_drop]
    exact absurd (htake ▸ hwell) h
  | cons a t =>
    refine ⟨s.take (findInvalid s), a, t, ?_, hwell, hd ▸ hnone, ?_⟩
    · rw [← hd, List.take_append_drop]
    · intro fuel
      simp only [replaceInvalidUtf8From, hd]

theorem replaceInvalidUtf8From_fuel (b : UInt8) (fuel fuel' : Nat) (s : Bytes)
    (h : s.length ≤ fuel) (h' : s.length ≤ fuel') :
    replaceInvalidUtf8From b fuel s = replaceInvalidUtf8From b fuel' s := by
  induction fuel generalizing fuel' s with
  | zero =>
    have hs : s = [] := List.length_eq_zero_iff.mp (Nat.le_zero.mp h)
    rw [hs, replaceInvalidUtf8From_of_wellFormed b wellFormed_nil,
      replaceInvalidUtf8From_of_wellFormed b wellFormed_nil]
  | succ fuel ih =>
    by_cases hw : WellFormed s
    · rw [replaceInvalidUtf8From_of_wellFormed b hw, replaceInvalidUtf8From_of_wellFormed b hw]
    · obtain ⟨u, a, t, rfl, _, _, hturn⟩ := replaceInvalidUtf8From_turn b hw
      simp only [List.length_append, List.length_cons] at h h'
      obtain ⟨fuel', rfl⟩ : ∃ k, fuel' = k + 1 := ⟨fuel' - 1, by omega⟩
      rw [hturn, hturn, ih fuel' t (by omega) (by omega)]

theorem replaceInvalidUtf8From_length (b : UInt8) (fuel : Nat) (s : Bytes) :
    (replaceInvalidUtf8From b fuel s).length = s.length := by
  induction fuel generalizing s with
  | zero => rfl
  | succ fuel ih =>
    by_cases hw : WellFormed s
    · rw [replaceInvalidUtf8From_of_wellFormed b hw]
    · obtain ⟨u, a, t, rfl, _, _, hturn⟩ := replaceInvalidUtf8From_turn b hw
      rw [hturn, List.length_append, List.length_append, List.length_cons, List.length_cons, ih]

theorem replaceInvalidUtf8From_wellFormed (hb : b < 0x80) (fuel : Nat) (s : Bytes)
    (h : s.length ≤ fuel) : WellFormed (replaceInvalidUtf8From b fuel s) := by
  induction fuel generalizing s with
  | zero =>
    have hs : s = [] := List.length_eq_zero_iff.mp (Nat.le_zero.mp h)
    rw [hs]
    exact wellFormed_nil
  | succ fuel ih =>
    by_cases hw : WellFormed s
    · rw [replaceInvalidUtf8From_of_wellFormed b hw]
      exact hw
    · obtain ⟨u, a, t, rfl, hu, _, hturn⟩ := replaceInvalidUtf8From_turn b hw
      simp only [List.length_append, List.length_cons] at h
      rw [hturn]
      exact hu.append ((wellFormed_singleton hb).append (ih t (by omega)))

theorem replaceInvalidUtf8From_map {c : UInt8 → Bool} (hcb : c b = false)
    (hc : ∀ a, c a → a < 0x80) (fuel : Nat) (s : Bytes) :
    (replaceInvalidUtf8From b fuel s).map c = s.map c := by
  induction fuel generalizing s with
  | zero => rfl
  | succ fuel ih =>
    by_cases hw : WellFormed s
    · rw [replaceInvalidUtf8From_of_wellFormed b hw]
    · obtain ⟨u, a, t, rfl, _, hnone, hturn⟩ := replaceInvalidUtf8From_turn b hw
      have ha : c a = false := by
        by_contra hca
        have hlt : a < 0x80 := hc a (by simpa using hca)
        simp [charLength, hlt] at hnone
      rw [hturn, List.map_append, List.map_append, List.map_cons, List.map_cons, ih, ha, hcb]

end

/-- What decoding makes of every text. -/
structure PacketMessage.Sane (s : Bytes) : Prop where
  wellFormed : WellFormed s
  short : s.length ≤ 30 * 1024
  sparse : ¬ utf8 "\n\n\n\n" <:+: s

def isNewline (b : UInt8) : Bool := decide (b = 10)

theorem sparse_iff (s : Bytes) : ¬ utf8 "\n\n\n\n" <:+: s ↔ Regex.ShortRuns isNewline 3 s :=
  (Regex.shortRuns_iff 10 3 s).symm

theorem newlines_replace (s : Bytes) :
    Rx.newlines.replace (utf8 "\n\n\n") s = Regex.collapse isNewline 3 [10, 10, 10] s :=
  Regex.replace_rep isNewline (by omega) _ s

theorem PacketMessage.sanitize_sane (m : Bytes) : PacketMessage.Sane (PacketMessage.sanitize m) := by
  rw [PacketMessage.sanitize, replaceInvalidUtf8, newlines_replace]
  have hrepaired := fun s : Bytes => replaceInvalidUtf8From_length 32 s.length s
  refine ⟨?_, ?_, ?_⟩
  · exact replaceInvalidUtf8From_wellFormed (by decide) _ _ (le_refl _)
  · rw [hrepaired, List.length_take]
    exact Nat.min_le_left _ _
  · -- neither the cut nor the repair makes a stretch of newlines longer
    have hcut : Regex.ShortRuns isNewline 3
        ((Regex.collapse isNewline 3 [10, 10, 10] m).take (30 * 1024)) :=
      (Regex.shortRuns_collapse isNewline (by omega) (by omega) (by simp [isNewline]) (by simp) m).take _ _
    have hnewline : ∀ a, isNewline a → a < 0x80 := by
      intro a ha
      rw [of_decide_eq_true ha]
      decide
    rw [sparse_iff]
    exact hcut.congr _ (replaceInvalidUtf8From_map (by decide) hnewline _ _).symm

theorem PacketMessage.sanitize_of_sane {m : Bytes} (h : PacketMessage.Sane m) :
    PacketMessage.sanitize m = m := by
  have hcollapse : Regex.collapse isNewline 3 [10, 10, 10] m = m := by
    apply Regex.collapse_eq_self isNewline (by omega)
    intro t ht hlong
    have hshort := (sparse_iff m).mp h.sparse t ht
    apply (List.eq_replicate_iff (n := 3) (a := 10)).mpr
    refine ⟨by omega, ?_⟩
    intro a ha
    have hnewline : isNewline a := List.mem_takeWhile_imp ha
    exact of_decide_eq_true hnewline
  rw [PacketMessage.sanitize, replaceInvalidUtf8, newlines_replace, hcollapse,
    List.take_of_length_le h.short, replaceInvalidUtf8From_of_wellFormed 32 h.wellFormed]

/-- Decoding a text ends, with more turns than its loops are given it gives the same, its
result is sane, and a sane text is left alone. -/
theorem sanitize_normal_form (m : Bytes) :
    (∀ fuel, m.length ≤ fuel →
      Rx.newlines.replaceFrom (utf8 "\n\n\n") (fuel + 1) [] m = Rx.newlines.replace (utf8 "\n\n\n") m) ∧
    (∀ s fuel, s.length ≤ fuel → replaceInvalidUtf8From 32 fuel s = replaceInvalidUtf8 s 32) ∧
    PacketMessage.Sane (PacketMessage.sanitize m) ∧
    PacketMessage.sanitize (PacketMessage.sanitize m) = PacketMessage.sanitize m ∧
    (PacketMessage.Sane m → PacketMessage.sanitize m = m) := by
  refine ⟨?_, ?_, PacketMessage.sanitize_sane m, ?_, PacketMessage.sanitize_of_sane⟩
  · intro fuel hf
    rw [newlines_replace]
    exact Regex.replaceFrom_rep isNewline (by omega) _ _ _ _ hf
  · intro s fuel hf
    exact replaceInvalidUtf8From_fuel 32 fuel s.length s hf (le_refl _)
  · exact PacketMessage.sanitize_of_sane (PacketMessage.sanitize_sane m)

theorem sanitize_normal_form_letters : PacketMessage.sanitize (utf8 "aé") = utf8 "aé" :=
  (sanitize_normal_form (utf8 "aé")).2.2.2.2
    ⟨(wellFormed_iff _).mpr (by decide +kernel), by decide, by decide +kernel⟩

/-- A stretch of newlines is cut down, and a lead byte without its tail becomes a blank. -/
example : PacketMessage.sanitize [97, 10, 10, 10, 10, 0xC3, 98] = [97, 10, 10, 10, 32, 98] := by
  decide +kernel

end WsChat
