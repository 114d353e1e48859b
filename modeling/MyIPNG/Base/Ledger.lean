import Mathlib.Data.List.Forall2
import Mathlib.Data.List.Perm.Subperm

/-!
# Requests and answers

A server answers some requests at once and notes others to answer them later. The ledger of a run
says that the answers given and the items noted belong to different requests: some of the requests
received, none taken twice, are one for each answer and one for each item. It is kept by each of the
things such a server does.
-/

set_option autoImplicit false
set_option relaxedAutoImplicit false

namespace MyIPNG.Base

section Ledger

variable {ρ ι α : Type*} {waitsFor : ι → ρ → Prop} {answers : α → ρ → Prop}
  {requests : List ρ} {items : List ι} {given : List α}

/-- The answers given and the items noted belong to different requests. -/
def Ledger (waitsFor : ι → ρ → Prop) (answers : α → ρ → Prop) (requests : List ρ)
    (items : List ι) (given : List α) : Prop :=
  ∃ answered waiting, (answered ++ waiting).Subperm requests ∧
    List.Forall₂ answers given answered ∧ List.Forall₂ waitsFor items waiting

theorem Ledger.nil : Ledger waitsFor answers [] [] [] :=
  ⟨[], [], List.Subperm.refl _, List.Forall₂.nil, List.Forall₂.nil⟩

/-- The requests that were answered, each of them once. -/
theorem Ledger.answered (h : Ledger waitsFor answers requests items given) :
    ∃ answered : List ρ, answered.Subperm requests ∧ List.Forall₂ answers given answered := by
  obtain ⟨answered, waiting, hsubperm, hanswers, -⟩ := h
  exact ⟨answered, (List.sublist_append_left _ _).subperm.trans hsubperm, hanswers⟩

/-- A request that nothing is done about. -/
theorem Ledger.ignore (h : Ledger waitsFor answers requests items given) (request : ρ) :
    Ledger waitsFor answers (requests ++ [request]) items given := by
  obtain ⟨answered, waiting, hsubperm, hanswers, hwaiting⟩ := h
  exact ⟨answered, waiting, hsubperm.trans (List.sublist_append_left _ _).subperm, hanswers,
    hwaiting⟩

/-- A request that is answered at once. -/
theorem Ledger.answer (h : Ledger waitsFor answers requests items given) {request : ρ}
    {reply : α} (hreply : answers reply request) :
    Ledger waitsFor answers (requests ++ [request]) items (given ++ [reply]) := by
  obtain ⟨answered, waiting, hsubperm, hanswers, hwaiting⟩ := h
  refine ⟨answered ++ [request], waiting, ?_, ?_, hwaiting⟩
  · have hperm : (answered ++ [request] ++ waiting).Perm (answered ++ waiting ++ [request]) := by
      rw [List.append_assoc, List.append_assoc]
      exact List.perm_append_comm.append_left answered
    exact hperm.subperm.trans ((List.subperm_append_right [request]).mpr hsubperm)
  · exact List.rel_append hanswers (List.Forall₂.cons hreply List.Forall₂.nil)

/-- A request that is noted. -/
theorem Ledger.note (h : Ledger waitsFor answers requests items given) {request : ρ} {item : ι}
    (hitem : waitsFor item request) :
    Ledger waitsFor answers (requests ++ [request]) (items ++ [item]) given := by
  obtain ⟨answered, waiting, hsubperm, hanswers, hwaiting⟩ := h
  refine ⟨answered, waiting ++ [request], ?_, hanswers, ?_⟩
  · rw [← List.append_assoc]
    exact (List.subperm_append_right [request]).mpr hsubperm
  · exact List.rel_append hwaiting (List.Forall₂.cons hitem List.Forall₂.nil)

/-- An item that is answered and removed. Assumes: the answer is right for every request that the
item can be waiting for. -/
theorem Ledger.settle {front back : List ι} {item : ι}
    (h : Ledger waitsFor answers requests (front ++ item :: back) given) {reply : α}
    (hreply : ∀ request, waitsFor item request → answers reply request) :
    Ledger waitsFor answers requests (front ++ back) (given ++ [reply]) := by
  obtain ⟨answered, waiting, hsubperm, hanswers, hwaiting⟩ := h
  have hfront := List.forall₂_take_append waiting front (item :: back) hwaiting.flip
  have hrest := List.forall₂_drop_append waiting front (item :: back) hwaiting.flip
  obtain ⟨request, others, hitem, hback, hdrop⟩ := List.forall₂_cons_right_iff.mp hrest
  have hsplit : waiting = waiting.take front.length ++ request :: others := by
    rw [← hdrop, List.take_append_drop]
  generalize waiting.take front.length = before at hfront hsplit
  subst hsplit
  refine ⟨answered ++ [request], before ++ others, ?_, ?_, ?_⟩
  · have hperm : (answered ++ [request] ++ (before ++ others)).Perm
        (answered ++ (before ++ request :: others)) := by
      rw [List.append_assoc, List.singleton_append]
      exact List.perm_middle.symm.append_left answered
    exact hperm.subperm.trans hsubperm
  · exact List.rel_append hanswers (List.Forall₂.cons (hreply request hitem) List.Forall₂.nil)
  · exact List.rel_append hfront.flip hback.flip

/-- Items that are lost. -/
theorem Ledger.forget (h : Ledger waitsFor answers requests items given) :
    Ledger waitsFor answers requests [] given := by
  obtain ⟨answered, hsubperm, hanswers⟩ := h.answered
  exact ⟨answered, [], by rwa [List.append_nil], hanswers, List.Forall₂.nil⟩

end Ledger

end MyIPNG.Base
