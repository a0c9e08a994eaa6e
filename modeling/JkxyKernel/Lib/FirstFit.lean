import JkxyKernel.Lib.Machine

/-!
# The first that fits

`List.findM?` over tests that may fail: which element is found, when none is, and when the
search comes to an end.
-/

namespace JkxyKernel
namespace FirstFit

universe u v

variable {α : Type} {ε : Type u} {test : α → Except ε Bool} {a : α} {rest as : List α}

theorem findM?_cons_true (h : test a = .ok true) :
    (a :: rest).findM? test = .ok (some a) := by
  rw [List.findM?, h]
  rfl

theorem findM?_cons_false (h : test a = .ok false) :
    (a :: rest).findM? test = rest.findM? test := by
  rw [List.findM?, h]
  rfl

theorem findM?_cons_error {e : ε} (h : test a = .error e) :
    (a :: rest).findM? test = .error e := by
  rw [List.findM?, h]
  rfl

/-- What is found has passed the test, and nothing before it. -/
theorem findM?_eq_some_iff :
    as.findM? test = .ok (some a) ↔
      ∃ before after, as = before ++ a :: after ∧ test a = .ok true ∧
        ∀ b ∈ before, test b = .ok false := by
  induction as with
  | nil =>
      refine iff_of_false nofun ?_
      rintro ⟨before, after, heq, -⟩
      cases before with
      | nil => cases heq
      | cons => cases heq
  | cons c cs ih =>
      constructor
      · intro h
        cases hc : test c with
        | error e =>
            rw [findM?_cons_error hc] at h
            cases h
        | ok fits =>
            cases fits with
            | true =>
                rw [findM?_cons_true hc] at h
                cases h
                exact ⟨[], cs, rfl, hc, nofun⟩
            | false =>
                rw [findM?_cons_false hc] at h
                obtain ⟨before, after, heq, ha, hbefore⟩ := ih.mp h
                exact ⟨c :: before, after, by rw [heq]; rfl, ha,
                  List.forall_mem_cons.mpr ⟨hc, hbefore⟩⟩
      · rintro ⟨before, after, heq, ha, hbefore⟩
        cases before with
        | nil =>
            cases heq
            exact findM?_cons_true ha
        | cons b before =>
            cases heq
            rw [findM?_cons_false (hbefore c List.mem_cons_self)]
            exact ih.mpr ⟨before, after, rfl, ha, fun x hx => hbefore x (List.mem_cons_of_mem _ hx)⟩

theorem test_of_findM? (h : as.findM? test = .ok (some a)) : a ∈ as ∧ test a = .ok true := by
  obtain ⟨before, after, rfl, ha, -⟩ := findM?_eq_some_iff.mp h
  exact ⟨List.mem_append_right _ List.mem_cons_self, ha⟩

/-- Nothing is found if nothing passes the test. -/
theorem findM?_eq_none_iff : as.findM? test = .ok none ↔ ∀ a ∈ as, test a = .ok false := by
  induction as with
  | nil => exact iff_of_true rfl nofun
  | cons c cs ih =>
      rw [List.forall_mem_cons]
      cases hc : test c with
      | error e =>
          rw [findM?_cons_error hc]
          exact iff_of_false nofun fun h => nomatch h.1
      | ok fits =>
          cases fits with
          | true =>
              rw [findM?_cons_true hc]
              exact iff_of_false nofun fun h => nomatch h.1
          | false =>
              rw [findM?_cons_false hc, ih]
              exact (and_iff_right rfl).symm

/-- The search ends if every test up to the first that is passed does. -/
theorem findM?_ok (h : ∀ a ∈ as, ∃ fits, test a = .ok fits) : ∃ r, as.findM? test = .ok r := by
  induction as with
  | nil => exact ⟨none, rfl⟩
  | cons c cs ih =>
      obtain ⟨fits, hc⟩ := h c List.mem_cons_self
      cases fits with
      | true => exact ⟨some c, findM?_cons_true hc⟩
      | false =>
          rw [findM?_cons_false hc]
          exact ih fun a ha => h a (List.mem_cons_of_mem _ ha)

end FirstFit
end JkxyKernel
