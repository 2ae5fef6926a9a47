import Mathlib.Data.List.Forall2
import Calculator.Proofs.Acceptance

namespace Calculator

structure Application where
  left : Float
  op : Operator
  right : Float
  deriving DecidableEq, Repr

def Event.application? : Event → Option Application
  | applied left op right => some ⟨left, op, right⟩
  | _ => none

def applications (events : List Event) : List Application :=
  events.filterMap Event.application?

@[simp]
theorem applications_nil : applications [] = [] := rfl

@[simp]
theorem applications_append (earlier later : List Event) :
    applications (earlier ++ later) = applications earlier ++ applications later :=
  List.filterMap_append

@[simp]
theorem applications_reported (d : Diagnostic) (events : List Event) :
    applications (.reported d :: events) = applications events := rfl

@[simp]
theorem applications_ofLookahead (l : Lexeme) : applications (Event.ofLookahead l) = [] := by
  unfold Event.ofLookahead
  split <;> rfl

theorem Config.Supplies.applications_eq {c : Config} {l : Lexeme} {v : Float} {events : List Event}
    (h : c.Supplies l v events) : applications events = [] := by
  cases h <;> rfl

namespace Expr

def applications : Expr → List Application
  | literal _ _ => []
  | binary op e f => e.applications ++ (f.applications ++ [⟨e.value, op, f.value⟩])

def inorder : Expr → List Application
  | literal _ _ => []
  | binary op e f => e.inorder ++ ⟨e.value, op, f.value⟩ :: f.inorder

theorem applications_perm_inorder (e : Expr) : e.applications.Perm e.inorder := by
  induction e with
  | literal => exact .refl _
  | binary op e f ihe ihf => exact ihe.append ((List.perm_append_comm).trans (ihf.cons _))

end Expr

def Token.isOperator : Token → Bool
  | operator _ => true
  | _ => false

def operators (ls : List Lexeme) : List Lexeme :=
  ls.filter (·.token.isOperator)

theorem operators_append (ls rs : List Lexeme) :
    operators (ls ++ rs) = operators ls ++ operators rs :=
  List.filter_append _ _

theorem operators_cons {l : Lexeme} {op : Operator} (hl : l.token = .operator op)
    (ls : List Lexeme) : operators (l :: ls) = l :: operators ls :=
  List.filter_cons_of_pos (by rw [hl]; rfl)

theorem Derives.operators_inorder {n : Nonterminal} {depth : Nat} {ls : List Lexeme} {e : Expr}
    (h : Derives n depth ls e) :
    List.Forall₂ (fun l a => l.token = .operator a.op) (operators ls) e.inorder := by
  induction h with
  | number hl => simp [operators, hl, Token.isOperator, Expr.inorder]
  | group ho hc _ ih =>
    simpa [operators, ho, hc, Token.isOperator] using ih
  | factor _ ih | term _ ih => exact ih
  | product hl _ _ _ ihe ihf | sum hl _ _ _ ihe ihf =>
    rw [operators_append, operators_cons hl]
    exact List.rel_append ihe (.cons hl ihf)

inductive Performs : Config → List Lexeme → List Application → Config → Prop where
  | nil {c : Config} : Performs c [] [] c
  | cons {c d e : Config} {l : Lexeme} {ls : List Lexeme} {events : List Event}
      {done : List Application} :
      c.Consumes l events d → reports events = [] → Performs d ls done e →
      Performs c (l :: ls) (applications events ++ done) e

namespace Performs

variable {c d d' e : Config} {l : Lexeme} {ls rs : List Lexeme} {events : List Event}
  {done done' later : List Application}

theorem reads (h : Performs c ls done d) : Reads c ls d := by
  induction h with
  | nil => exact .nil
  | cons hc hr _ ih => exact .cons ⟨_, hc, hr⟩ ih

theorem single (h : c.Consumes l events d) (hr : reports events = []) :
    Performs c [l] (applications events) d := by
  have hone := cons h hr nil
  rwa [List.append_nil] at hone

theorem append (h : Performs c ls done d) (h' : Performs d rs later e) :
    Performs c (ls ++ rs) (done ++ later) e := by
  induction h with
  | nil => exact h'
  | cons hc hr _ ih =>
    rw [List.cons_append, List.append_assoc]
    exact .cons hc hr (ih h')

theorem unique (h : Performs c ls done d) (h' : Performs c ls done' d') :
    d = d' ∧ done = done' := by
  induction h generalizing done' with
  | nil =>
    cases h'
    exact ⟨rfl, rfl⟩
  | cons hc _ _ ih =>
    cases h' with
    | cons hc' _ h' =>
      obtain ⟨rfl, rfl⟩ := hc.unique hc'
      obtain ⟨hd, rfl⟩ := ih h'
      exact ⟨hd, rfl⟩

end Performs

/-- The phrase of `e` that started at `c` ends at `d`, where what waits to be applied is all of `e`
that has not been done. -/
def Nonterminal.Concludes (n : Nonterminal) (c : Config) (e : Expr) (done : List Application)
    (d : Config) : Prop :=
  match n with
  | .expression => ∃ level v, d = { c with level := level, phase := .complete v } ∧
      (level.total v).1 = e.value ∧ done ++ applications (level.total v).2 = e.applications
  | .term => ∃ product v,
      d = { c with level := ⟨c.level.sum, product⟩, phase := .complete v } ∧
      (settle product v).1 = e.value ∧ done ++ applications (settle product v).2 = e.applications
  | .factor => d = { c with phase := .complete e.value } ∧ done = e.applications

theorem Derives.performs {n : Nonterminal} {depth : Nat} {ls : List Lexeme} {e : Expr}
    (h : Derives n depth ls e) {c : Config} (hc : n.Starts c) (hd : c.depth + depth ≤ maxDepth) :
    ∃ done d, Performs c ls done d ∧ n.Concludes c e done d := by
  induction h generalizing c with
  | number hl => exact ⟨[], _, .single (.number hc.1 hl) rfl, rfl, rfl⟩
  | @group depth opening closing ls e ho hcl _ ih =>
    have hopening := Config.Consumes.opening hc.1 ho (show c.depth < maxDepth by omega)
    obtain ⟨done, _, hperforms, level, v, rfl, hv, hdone⟩ :=
      ih (c := ⟨⟨opening.start, c.level⟩ :: c.groups, c.depth + 1, .fresh, .operand⟩) ⟨rfl, rfl⟩
        (by simp only; omega)
    have hclosing := Config.Consumes.closed
      (c := ⟨⟨opening.start, c.level⟩ :: c.groups, c.depth + 1, level, .complete v⟩)
      (.complete rfl) rfl hcl
    refine ⟨_, _, .cons hopening rfl (hperforms.append (.single hclosing (by simp))), ?_, ?_⟩
    · rw [← hv]
      rfl
    · rw [← hdone]
      rfl
  | factor _ ih =>
    obtain ⟨done, _, hperforms, rfl, rfl⟩ := ih ⟨hc.1, trivial⟩ hd
    refine ⟨_, _, hperforms, c.level.product, _, rfl, ?_, ?_⟩
    · rw [hc.2]
      rfl
    · rw [hc.2]
      exact List.append_nil _
  | @product depth left right l op e f hl hop _ _ ihe ihf =>
    obtain ⟨done, _, hleft, product, v, rfl, hv, hdone⟩ := ihe hc hd
    have hproduct := Config.Consumes.product
      (c := { c with level := ⟨c.level.sum, product⟩, phase := .complete v }) (.complete rfl) hl hop
    obtain ⟨later, _, hright, rfl, rfl⟩ :=
      ihf (c := ⟨c.groups, c.depth, ⟨c.level.sum, some ⟨(settle product v).1, op⟩⟩, .operand⟩)
        ⟨rfl, trivial⟩ hd
    refine ⟨_, _, hleft.append (.cons hproduct (by simp) hright), _, f.value, rfl, ?_, ?_⟩
    · rw [Expr.value, ← hv]
      rfl
    · rw [Expr.applications, ← hdone, ← hv]
      simp [settle, applications, Event.application?]
  | term _ ih =>
    obtain ⟨done, _, hperforms, product, v, rfl, hv, hdone⟩ := ih ⟨hc.1, by rw [hc.2]⟩ hd
    refine ⟨_, _, hperforms, _, v, rfl, ?_, ?_⟩
    · rw [hc.2]
      exact hv
    · rw [hc.2, ← hdone]
      simp [Level.total, settle]
  | @sum depth left right l op e f hl hop _ _ ihe ihf =>
    obtain ⟨done, _, hleft, level, v, rfl, hv, hdone⟩ := ihe hc hd
    have hsum := Config.Consumes.sum (c := { c with level := level, phase := .complete v })
      (.complete rfl) hl hop
    obtain ⟨later, _, hright, product, w, rfl, hw, hlater⟩ :=
      ihf (c := ⟨c.groups, c.depth, ⟨some ⟨(level.total v).1, op⟩, none⟩, .operand⟩) ⟨rfl, rfl⟩ hd
    refine ⟨_, _, hleft.append (.cons hsum (by simp) hright), _, w, rfl, ?_, ?_⟩
    · rw [Expr.value, ← hv, ← hw]
      rfl
    · rw [Expr.applications, ← hdone, ← hlater, ← hv, ← hw]
      simp [Level.total, settle, applications, Event.application?]

theorem Derives.applications_eq {depth : Nat} {ls : List Lexeme} {e : Expr}
    {done : List Application} {c : Config} {l : Lexeme} {v : Float} {events : List Event}
    (h : Derives .expression depth ls e) (hd : depth ≤ maxDepth) (hc : Performs .initial ls done c)
    (hf : c.Finishes l v events) : e.applications = done ++ applications events := by
  obtain ⟨done', _, hperforms, level, w, rfl, _, hdone⟩ :=
    h.performs starts_initial (by rwa [Config.initial, Nat.zero_add])
  obtain ⟨rfl, rfl⟩ := hc.unique hperforms
  obtain ⟨hs, _, _⟩ := hf
  cases hs with
  | complete hw =>
    cases hw
    exact hdone.symm
  | missing hw | missingEnd hw | skipped hw => cases hw

end Calculator
