/-
Dictionary order is an order.

`notAfter` compares two texts letter by letter.  It is total, transitive and
antisymmetric, so sorting by it puts texts into the one order there is for them, and
where they stood before makes no difference.
-/
import TerminalMarkup.Text.Basic

namespace TerminalMarkup.Text

theorem notAfter_cons_iff {a b : CodePoint} {s t : Text} :
    notAfter (a :: s) (b :: t) = true ↔ a.toNat < b.toNat ∨ (a = b ∧ notAfter s t = true) := by
  simp [notAfter]

theorem notAfter_total (s t : Text) : (notAfter s t || notAfter t s) = true := by
  rw [Bool.or_eq_true]
  induction s generalizing t with
  | nil => exact Or.inl rfl
  | cons a s ih =>
      cases t with
      | nil => exact Or.inr rfl
      | cons b t =>
          rw [notAfter_cons_iff, notAfter_cons_iff]
          rcases Nat.lt_trichotomy a.toNat b.toNat with hlt | heq | hgt
          · exact Or.inl (Or.inl hlt)
          · obtain rfl : a = b := CodePoint.toNat_inj.mp heq
            exact (ih t).imp (fun h => Or.inr ⟨rfl, h⟩) fun h => Or.inr ⟨rfl, h⟩
          · exact Or.inr (Or.inl hgt)

theorem notAfter_trans {s t u : Text} (hst : notAfter s t = true) (htu : notAfter t u = true) :
    notAfter s u = true := by
  induction s generalizing t u with
  | nil => rfl
  | cons a s ih =>
      cases t with
      | nil => cases hst
      | cons b t =>
          cases u with
          | nil => cases htu
          | cons c u =>
              rw [notAfter_cons_iff] at hst htu ⊢
              rcases hst with hab | ⟨rfl, hst⟩
              · rcases htu with hbc | ⟨rfl, -⟩
                · exact Or.inl (Nat.lt_trans hab hbc)
                · exact Or.inl hab
              · exact htu.imp_right fun ⟨hbc, htu⟩ => ⟨hbc, ih hst htu⟩

theorem notAfter_antisymm {s t : Text} (hst : notAfter s t = true) (hts : notAfter t s = true) :
    s = t := by
  induction s generalizing t with
  | nil =>
      cases t with
      | nil => rfl
      | cons b t => cases hts
  | cons a s ih =>
      cases t with
      | nil => cases hst
      | cons b t =>
          rw [notAfter_cons_iff] at hst hts
          rcases hst with hab | ⟨rfl, hst⟩
          · rcases hts with hba | ⟨rfl, -⟩
            · exact absurd hab (Nat.lt_asymm hba)
            · exact absurd hab (Nat.lt_irrefl _)
          · rcases hts with haa | ⟨-, hts⟩
            · exact absurd haa (Nat.lt_irrefl _)
            · rw [ih hst hts]

theorem pairwise_mergeSort (texts : List Text) :
    (texts.mergeSort notAfter).Pairwise fun s t => notAfter s t = true := by
  have htrans : ∀ s t u, notAfter s t = true → notAfter t u = true → notAfter s u = true :=
    fun _ _ _ => notAfter_trans
  exact List.pairwise_mergeSort htrans notAfter_total texts

/-- Texts are sorted alike wherever they stood. -/
theorem mergeSort_eq_of_perm {texts texts' : List Text} (h : texts.Perm texts') :
    texts.mergeSort notAfter = texts'.mergeSort notAfter := by
  have hperm : (texts.mergeSort notAfter).Perm (texts'.mergeSort notAfter) :=
    (List.mergeSort_perm ..).trans (h.trans (List.mergeSort_perm ..).symm)
  exact hperm.eq_of_pairwise (fun _ _ _ _ => notAfter_antisymm) (pairwise_mergeSort texts)
    (pairwise_mergeSort texts')

end TerminalMarkup.Text
