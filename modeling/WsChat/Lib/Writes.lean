import Mathlib.Data.List.AList

/-! A map after a list of writes: under each key the last write is read. -/
namespace Lib
variable {α β : Type*} [DecidableEq α] {key : β → α} {l l' : List β} {a : α}

/-- The values are written one after the other, each under its own key. -/
def writeAll (key : β → α) (t : AList fun _ : α => β) (l : List β) : AList fun _ : α => β :=
  l.foldl (fun t b => t.insert (key b) b) t

def lastWrite (key : β → α) (l : List β) (a : α) : Option β := (l.filter fun b => key b = a).getLast?

@[simp] theorem writeAll_nil (t : AList fun _ : α => β) : writeAll key t [] = t := rfl

theorem writeAll_append (t : AList fun _ : α => β) :
    writeAll key t (l ++ l') = writeAll key (writeAll key t l) l' := List.foldl_append

theorem lastWrite_cons (b : β) : lastWrite key (b :: l) a =
    (lastWrite key l a).or (if key b = a then some b else none) := by
  unfold lastWrite
  by_cases hb : key b = a
  · rw [List.filter_cons_of_pos (by simpa using hb), List.getLast?_cons, if_pos hb]
    cases (l.filter fun b => key b = a).getLast? with
    | none => rfl
    | some b' => rfl
  · rw [List.filter_cons_of_neg (by simpa using hb), if_neg hb, Option.or_none]

theorem lookup_writeAll (t : AList fun _ : α => β) (l : List β) :
    (writeAll key t l).lookup a = (lastWrite key l a).or (t.lookup a) := by
  induction l generalizing t with
  | nil => rfl
  | cons b l ih =>
    have hstep : writeAll key t (b :: l) = writeAll key (t.insert (key b) b) l := rfl
    rw [hstep, ih, lastWrite_cons, Option.or_assoc]
    by_cases hb : key b = a
    · subst hb
      simp
    · rw [AList.lookup_insert_ne (Ne.symm hb), if_neg hb, Option.none_or]

theorem mem_of_lastWrite {b : β} (h : lastWrite key l a = some b) : b ∈ l ∧ key b = a := by
  have hb := List.mem_filter.mp (List.mem_of_getLast? h)
  exact ⟨hb.1, by simpa using hb.2⟩

theorem lastWrite_of_nodup (hn : (l.map key).Nodup) : lastWrite key l a = l.find? fun b => key b = a := by
  induction l with
  | nil => rfl
  | cons b l ih =>
    rw [List.map_cons] at hn
    obtain ⟨hnew, hn⟩ := List.nodup_cons.mp hn
    rw [lastWrite_cons, ih hn, List.find?_cons]
    by_cases hb : key b = a
    · subst hb
      have hnone : l.find? (fun b' => key b' = key b) = none := by
        refine List.find?_eq_none.mpr ?_
        intro b' hb' he
        exact hnew (List.mem_map.mpr ⟨b', hb', by simpa using he⟩)
      simp [hnone]
    · simp [hb]

end Lib
