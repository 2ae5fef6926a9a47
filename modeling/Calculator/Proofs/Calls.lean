import Mathlib.Data.List.Infix
import Mathlib.Data.List.Perm.Subperm
import Calculator.Proofs.History
import Calculator.Proofs.Reading

/-!
The groups of a configuration are the calls of the grammar that have entered a group and have not
come back. Each call comes back at the depth at which it was made, and no configuration that an
evaluation gets to is deeper than `maxDepth`.
-/

namespace Calculator

def Nonterminal.Returns (n : Nonterminal) (c : Config) (value : Float) (d : Config) (l : Lexeme) :
    Prop :=
  ∃ v events, d.Supplies l v events ∧ n.Ends c value { d with phase := .complete v } ∧
    ∀ op, l.token = .operator op → n.joins op = false

def Nonterminal.Busy (n : Nonterminal) (c d : Config) (l : Lexeme) : Prop :=
  ∀ value, ¬ n.Returns c value d l

inductive Proceeds (p : Config → Lexeme → Prop) (e : Evaluator) (c : Config) :
    Evaluator → Config → Prop where
  | start : Proceeds p e c e c
  | step {f : Evaluator} {d d' : Config} {events : List Event} :
      Proceeds p e c f d → p d f.current → d.feed f.current = .consumed d' events →
      Proceeds p e c (f.record events).advance d'

def Reaches (e : Evaluator) (c : Config) (f : Evaluator) (d : Config) : Prop :=
  Proceeds (fun _ _ => True) e c f d

namespace Proceeds

variable {p : Config → Lexeme → Prop} {e f : Evaluator} {c d : Config}

theorem sound (h : Proceeds p e c f d) (hc : c.Sound) : d.Sound := by
  induction h with
  | start => exact hc
  | step _ _ hfeed ih => exact (Config.feed_eq_consumed_iff.mp hfeed).sound ih

theorem depth_eq (h : Proceeds p e c f d) : f.depth = e.depth := by
  induction h with
  | start => rfl
  | step _ _ _ ih => exact ih

theorem head {c' : Config} {events : List Event} (hp : p c e.current)
    (hfeed : c.feed e.current = .consumed c' events)
    (h : Proceeds p (e.record events).advance c' f d) : Proceeds p e c f d := by
  induction h with
  | start => exact .step .start hp hfeed
  | step _ hp' hfeed' ih => exact .step ih hp' hfeed'

end Proceeds

namespace Nonterminal

variable {n : Nonterminal} {c d d' : Config} {l : Lexeme} {value v : Float} {events : List Event}

theorem Ends.groups_eq (h : n.Ends c value d) : d.groups = c.groups ∧ d.depth = c.depth := by
  cases n with
  | expression | term =>
    obtain ⟨_, _, rfl, _⟩ := h
    exact ⟨rfl, rfl⟩
  | factor =>
    rw [h]
    exact ⟨rfl, rfl⟩

theorem Returns.groups_eq (h : n.Returns c value d l) :
    d.groups = c.groups ∧ d.depth = c.depth := by
  obtain ⟨_, _, _, he, _⟩ := h
  exact he.groups_eq

theorem busy_of_length_lt (h : c.groups.length < d.groups.length) : n.Busy c d l := by
  intro value hr
  rw [hr.groups_eq.1] at h
  exact Nat.lt_irrefl _ h

def Keeps (n : Nonterminal) (c : Config) (level : Level) : Prop :=
  match n with
  | .expression => True
  | .term => level.sum = c.level.sum
  | .factor => level = c.level

theorem returns_of_keeps (hg : d.groups = c.groups) (hd : d.depth = c.depth)
    (hk : n.Keeps c d.level) (hs : d.Supplies l v events)
    (hl : ∀ op, l.token = .operator op → n.joins op = false) :
    ∃ value, n.Returns c value d l := by
  obtain ⟨groups, depth, level, phase⟩ := d
  obtain rfl : groups = c.groups := hg
  obtain rfl : depth = c.depth := hd
  cases n with
  | expression => exact ⟨_, v, events, hs, ⟨level, v, rfl, rfl⟩, hl⟩
  | term =>
    refine ⟨_, v, events, hs, ⟨level.product, v, ?_, rfl⟩, hl⟩
    simp only [Keeps] at hk
    rw [← hk]
  | factor =>
    obtain rfl : level = c.level := hk
    exact ⟨v, v, events, hs, rfl, hl⟩

inductive Within (n : Nonterminal) (c d : Config) : Prop where
  | level : d.groups = c.groups → n.Keeps c d.level → Within n c d
  | group (inner : List Group) (group : Group) :
      d.groups = inner ++ group :: c.groups → n.Keeps c group.outer → Within n c d

theorem Within.consumes (h : n.Within c d) (hc : c.Sound) (hd : d.Sound)
    (hs : d.Consumes l events d') (hbusy : n.Busy c d l) : n.Within c d' := by
  cases h with
  | level hg hk =>
    have hdepth : d.depth = c.depth := by rw [hd.depth_eq, hc.depth_eq, hg]
    have ended {v : Float} {early : List Event} (hv : d.Supplies l v early)
        (hl : ∀ op, l.token = .operator op → n.joins op = false) : False := by
      obtain ⟨value, hr⟩ := returns_of_keeps hg hdepth hk hv hl
      exact hbusy value hr
    cases hs with
    | number | tooDeep | invalid | nested | matched | passed => exact .level hg hk
    | opening => exact .group [] _ (by rw [hg]; rfl) hk
    | product hv hl hop =>
      cases n with
      | expression | term => exact .level hg hk
      | factor => exact (ended hv fun _ _ => rfl).elim
    | sum hv hl hop =>
      cases n with
      | expression => exact .level hg trivial
      | term =>
        refine (ended hv fun op hop' => ?_).elim
        rw [hl, Token.operator.injEq] at hop'
        exact joins_term (hop' ▸ hop)
      | factor => exact (ended hv fun _ _ => rfl).elim
    | closed hv _ hl => exact (ended hv fun op hop => by simp [hl] at hop).elim
    | unclosed hv _ _ hl => exact (ended hv fun op hop => (hl op hop).elim).elim
  | group inner group hg hk =>
    rcases hs.groups_cases with hsame | ⟨_, hpush⟩ | ⟨left, outer, v, hpop, rfl⟩
    · exact .group inner group (hsame.trans hg) hk
    · exact .group (_ :: inner) group (by rw [hpush, hg]; rfl) hk
    · rw [hg] at hpop
      cases inner with
      | nil =>
        obtain ⟨rfl, rfl⟩ := List.cons_eq_cons.mp hpop
        exact .level rfl hk
      | cons first inner =>
        obtain ⟨rfl, rfl⟩ := List.cons_eq_cons.mp hpop
        exact .group inner group rfl hk

theorem Within.finishes (h : n.Within c d) (hc : c.Sound) (hd : d.Sound)
    (hf : d.Finishes l v events) : ∃ value, n.Returns c value d l := by
  obtain ⟨hv, hnil, hl⟩ := hf
  cases h with
  | level hg hk =>
    have hdepth : d.depth = c.depth := by rw [hd.depth_eq, hc.depth_eq, hg]
    exact returns_of_keeps hg hdepth hk hv fun op hop => (hl op hop).elim
  | group _ _ hg => simp [hg] at hnil

theorem Within.proceeds {e f : Evaluator} (h : Proceeds (n.Busy c) e c f d) (hc : c.Sound) :
    n.Within c d := by
  induction h with
  | start => exact .level rfl (by cases n <;> trivial)
  | step hproceeds hbusy hfeed ih =>
    exact ih.consumes hc (hproceeds.sound hc) (Config.feed_eq_consumed_iff.mp hfeed) hbusy

theorem Within.returns (h : n.Within c d) (hc : c.Sound) (hd : d.Sound) (e : Evaluator) :
    ∃ f b value, Proceeds (n.Busy c) e d f b ∧ n.Returns c value b f.current := by
  fun_induction Evaluator.run e d with
  | case1 e d v events hf =>
    obtain ⟨value, hr⟩ := h.finishes hc hd (Config.feed_eq_finished_iff.mp hf)
    exact ⟨e, d, value, .start, hr⟩
  | case2 e d d' events hfeed ih =>
    by_cases hbusy : n.Busy c d e.current
    · have hs := Config.feed_eq_consumed_iff.mp hfeed
      obtain ⟨f, b, value, hproceeds, hr⟩ := ih (h.consumes hc hd hs hbusy) (hs.sound hd)
      exact ⟨f, b, value, hproceeds.head hbusy hfeed, hr⟩
    · rw [Busy, Classical.not_forall_not] at hbusy
      obtain ⟨value, hr⟩ := hbusy
      exact ⟨e, d, value, .start, hr⟩

end Nonterminal

/-- A call has entered `group`, around which there are `outer`, and has not come back when the
evaluation that began with `e` is at `f` and `c`. -/
def Entered (e f : Evaluator) (c : Config) (group : Group) (outer : List Group) : Prop :=
  ∃ g b d events, Reaches e .initial g b ∧ b.groups = outer ∧
    b.feed g.current = .consumed d events ∧ d.groups = group :: outer ∧
    Proceeds (Nonterminal.factor.Busy b) (g.record events).advance d f c ∧
    Nonterminal.factor.Busy b c f.current

namespace Entered

variable {e f : Evaluator} {c d : Config} {group : Group} {outer : List Group}
  {events : List Event}

theorem step (h : Entered e f c group outer) (hfeed : c.feed f.current = .consumed d events)
    (hd : group :: outer <:+ d.groups) : Entered e (f.record events).advance d group outer := by
  obtain ⟨g, b, b', early, hreach, hb, henter, hb', hproceeds, hbusy⟩ := h
  refine ⟨g, b, b', early, hreach, hb, henter, hb', hproceeds.step hbusy hfeed, ?_⟩
  apply Nonterminal.busy_of_length_lt
  rw [hb]
  exact hd.length_le

theorem of_suffix (h : Reaches e .initial f c) (hc : group :: outer <:+ c.groups) :
    Entered e f c group outer := by
  induction h with
  | start => simp [Config.initial] at hc
  | @step f c d events hreach _ hfeed ih =>
    rcases (Config.feed_eq_consumed_iff.mp hfeed).groups_cases with
      hsame | ⟨_, hpush⟩ | ⟨left, rest, v, hpop, rfl⟩
    · exact (ih (hsame ▸ hc)).step hfeed hc
    · rcases List.suffix_cons_iff.mp (hpush ▸ hc) with hnew | hold
      · obtain ⟨rfl, rfl⟩ := List.cons_eq_cons.mp hnew
        refine ⟨f, c, d, events, hreach, rfl, hfeed, hpush, .start, ?_⟩
        apply Nonterminal.busy_of_length_lt
        rw [hpush]
        exact Nat.lt_succ_self _
      · exact (ih hold).step hfeed hc
    · exact (ih (hpop ▸ hc.trans (List.suffix_cons left rest))).step hfeed hc

theorem suffix_or_returns {p : Config → Lexeme → Prop} {b : Config}
    (h : Proceeds p e c f d) (hp : ∀ x l, p x l → Nonterminal.factor.Busy b x l)
    (hb : b.Sound) (hc : c.Sound) (hlevel : group.outer = b.level)
    (hgroup : c.groups = group :: b.groups) :
    group :: b.groups <:+ d.groups ∨ ∀ l, ∃ value, Nonterminal.factor.Returns b value d l := by
  induction h with
  | start => exact .inl (hgroup ▸ List.suffix_refl _)
  | @step f d d' events hproceeds hpd hfeed ih =>
    have hopen : group :: b.groups <:+ d.groups := by
      rcases ih with hopen | hreturns
      · exact hopen
      · obtain ⟨value, hr⟩ := hreturns f.current
        exact (hp _ _ hpd value hr).elim
    have hd := hproceeds.sound hc
    have hs := Config.feed_eq_consumed_iff.mp hfeed
    rcases hs.groups_cases with hsame | ⟨_, hpush⟩ | ⟨left, rest, v, hpop, rfl⟩
    · exact .inl (hsame ▸ hopen)
    · exact .inl (hpush ▸ hopen.trans (List.suffix_cons _ _))
    · -- The group that is left is the one that was entered, or else one inside of it.
      rw [hpop] at hopen
      rcases List.suffix_cons_iff.mp hopen with hlast | hinner
      · obtain ⟨rfl, rfl⟩ := List.cons_eq_cons.mp hlast
        have hdepth := (hs.sound hd).depth_eq.trans hb.depth_eq.symm
        exact .inr fun l => Nonterminal.returns_of_keeps rfl hdepth hlevel (.complete rfl)
          fun _ _ => rfl
      · exact .inl hinner

theorem suffix (h : Entered e f c group outer) : group :: outer <:+ c.groups := by
  obtain ⟨g, b, d, events, hreach, rfl, henter, hd, hproceeds, hbusy⟩ := h
  have hb := hreach.sound Config.sound_initial
  have hs := Config.feed_eq_consumed_iff.mp henter
  have hlevel : group.outer = b.level := by
    rcases hs.groups_cases with hsame | ⟨_, hpush⟩ | ⟨left, rest, v, hpop, rfl⟩
    · have hlength := congrArg List.length (hsame.symm.trans hd)
      simp at hlength
    · obtain ⟨rfl, _⟩ := List.cons_eq_cons.mp (hpush.symm.trans hd)
      rfl
    · simp only at hd
      have hlength := congrArg List.length hpop
      simp [hd] at hlength
      omega
  rcases suffix_or_returns hproceeds (fun _ _ h => h) hb (hs.sound hb) hlevel hd with
    hopen | hreturns
  · exact hopen
  · obtain ⟨value, hr⟩ := hreturns f.current
    exact (hbusy value hr).elim

end Entered

inductive CallsExpression (e : Evaluator) : Evaluator → Config → Prop where
  | whole : CallsExpression e e .initial
  | group {g : Evaluator} {b d : Config} {events : List Event} {group : Group} :
      Reaches e .initial g b → b.feed g.current = .consumed d events →
      d.groups = group :: b.groups → CallsExpression e (g.record events).advance d

theorem CallsExpression.sound {e g : Evaluator} {b : Config} (h : CallsExpression e g b) :
    b.Sound := by
  cases h with
  | whole => exact Config.sound_initial
  | group hreach hfeed =>
    exact (Config.feed_eq_consumed_iff.mp hfeed).sound (hreach.sound Config.sound_initial)

def Expressing (e f : Evaluator) (c : Config) (groups : List Group) : Prop :=
  ∃ g b, CallsExpression e g b ∧ b.groups = groups ∧
    Proceeds (Nonterminal.expression.Busy b) g b f c ∧ Nonterminal.expression.Busy b c f.current

theorem Expressing.suffix {e f : Evaluator} {c : Config} {groups : List Group}
    (h : Expressing e f c groups) : groups <:+ c.groups := by
  obtain ⟨g, b, hcall, rfl, hproceeds, _⟩ := h
  cases Nonterminal.Within.proceeds hproceeds hcall.sound with
  | level hg _ => exact hg ▸ List.suffix_refl _
  | group inner group hg _ =>
    rw [hg]
    exact (List.suffix_cons group b.groups).trans (List.suffix_append inner _)

theorem length_expressing_le {e f : Evaluator} {c : Config} {calls : List (List Group)}
    (hnodup : calls.Nodup) (hcalls : ∀ groups ∈ calls, Expressing e f c groups) :
    calls.length ≤ c.groups.length + 1 := by
  have hsubset : calls ⊆ c.groups.tails :=
    fun groups hg => (List.mem_tails _ _).mpr (hcalls groups hg).suffix
  have hlength := (List.subperm_of_subset hnodup hsubset).length_le
  rwa [List.length_tails] at hlength

theorem run_reaches (e : Evaluator) (c : Config) :
    ∃ f d events, Reaches e c f d ∧ d.feed f.current = .finished (e.run c).1 events ∧
      (e.run c).2 = { f.record events with depth := d.depth } := by
  fun_induction Evaluator.run e c with
  | case1 e c v events hf => exact ⟨e, c, events, .start, hf, rfl⟩
  | case2 e c d events hfeed ih =>
    obtain ⟨f, b, later, hreach, hf, hrun⟩ := ih
    exact ⟨f, b, later, hreach.head trivial hfeed, hf, hrun⟩

theorem depth_of_finished {e f : Evaluator} {c : Config} {v : Float} {events : List Event}
    (h : Reaches e .initial f c) (hf : c.feed f.current = .finished v events) :
    c.groups = [] ∧ c.depth = 0 := by
  have hfinishes := Config.feed_eq_finished_iff.mp hf
  obtain ⟨_, hnil, _⟩ := id hfinishes
  exact ⟨hnil, hfinishes.depth_eq (h.sound Config.sound_initial)⟩

theorem parse_reaches {e : Evaluator} (h : e.depth = 0) :
    ∃ f c events, Reaches e .initial f c ∧ c.feed f.current = .finished e.parse.1 events ∧
      e.parse.2 = (f.record events).record (Evaluator.trailing f.current) ∧
      c.groups = [] ∧ c.depth = 0 := by
  obtain ⟨f, c, events, hreach, hf, hrun⟩ := run_reaches e .initial
  have hend := depth_of_finished hreach hf
  have hdepth : f.depth = c.depth := hreach.depth_eq.trans (h.trans hend.2.symm)
  rw [Evaluator.parse_eq h, hrun, ← hdepth]
  exact ⟨f, c, events, hreach, hf, rfl, hend⟩

/-- What holds whenever an evaluation that began with `e` is at `f` and `c`. An expression is read
in each group that is open, and one around them all. -/
structure CallsBounded (e f : Evaluator) (c : Config) : Prop where
  depth_eq : c.depth = c.groups.length
  entered_iff : ∀ group outer, group :: outer <:+ c.groups ↔ Entered e f c group outer
  depth_le : c.depth ≤ maxDepth
  expressions_le : ∀ calls : List (List Group), calls.Nodup →
    (∀ groups ∈ calls, Expressing e f c groups) → calls.length ≤ maxDepth + 1
  budget_lt : ∀ d events, c.feed f.current = .consumed d events →
    (f.record events).advance.budget d < f.budget c
  depth_of_left : ∀ d events, c.feed f.current = .consumed d events →
    d.groups.length < c.groups.length → c.depth = d.depth + 1
  unmatched_pos : ∀ k, c.phase = .skipping k → 0 < k
  returns : ∀ n : Nonterminal, ∃ g d value, Proceeds (n.Busy c) f c g d ∧
    n.Returns c value d g.current ∧ d.groups = c.groups ∧ d.depth = c.depth

theorem Reaches.callsBounded {e f : Evaluator} {c : Config} (h : Reaches e .initial f c) :
    CallsBounded e f c := by
  have hc := h.sound Config.sound_initial
  refine ⟨hc.depth_eq, fun group outer => ⟨Entered.of_suffix h, Entered.suffix⟩, hc.depth_le, ?_,
    fun d events => Evaluator.budget_lt, ?_, hc.unmatched_pos, ?_⟩
  · intro calls hnodup hcalls
    have hlength := length_expressing_le hnodup hcalls
    rw [← hc.depth_eq] at hlength
    exact hlength.trans (Nat.succ_le_succ hc.depth_le)
  · intro d events hfeed hlt
    have hd := (Config.feed_eq_consumed_iff.mp hfeed).sound hc
    rcases (Config.feed_eq_consumed_iff.mp hfeed).groups_cases with
      hsame | ⟨_, hpush⟩ | ⟨group, outer, v, hpop, rfl⟩
    · rw [hsame] at hlt
      exact (Nat.lt_irrefl _ hlt).elim
    · rw [hpush] at hlt
      exact (Nat.lt_irrefl _ (Nat.lt_of_succ_lt hlt)).elim
    · have hdepth := hc.depth_eq
      rw [hpop, List.length_cons] at hdepth
      exact hdepth.trans (congrArg (· + 1) hd.depth_eq.symm)
  · intro n
    have hwithin : n.Within c c := .level rfl (by cases n <;> trivial)
    obtain ⟨g, d, value, hproceeds, hr⟩ := hwithin.returns hc hc f
    exact ⟨g, d, value, hproceeds, hr, hr.groups_eq⟩

theorem evaluation_calls_bounded (source : String) (pulls : Nat) (ops : List Operation) :
    let e := history source pulls ops
    e.depth = 0 ∧
    (∃ f c events, Reaches e .initial f c ∧ c.feed f.current = .finished e.parse.1 events ∧
      e.parse.2 = (f.record events).record (Evaluator.trailing f.current) ∧
      c.groups = [] ∧ c.depth = 0) ∧
    ∀ f c, Reaches e .initial f c → CallsBounded e f c := by
  intro e
  obtain ⟨_, _, hdepth⟩ := history_ready source pulls ops
  exact ⟨hdepth, parse_reaches hdepth, fun f c h => h.callsBounded⟩

end Calculator
