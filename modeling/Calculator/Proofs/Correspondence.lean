import Mathlib.Data.List.Forall2
import Calculator.Proofs.Runs

/-!
Lexemes that differ only in where they stand are evaluated to the same value, with the same reports
where they stand. `R` relates the offsets of one input to those of the other.
-/

namespace Calculator

structure Lexeme.Corresponds (R : Nat → Nat → Prop) (l l' : Lexeme) : Prop where
  token_eq : l.token = l'.token
  start : R l.start l'.start

inductive Diagnostic.Corresponds (R : Nat → Nat → Prop) : Diagnostic → Diagnostic → Prop where
  | unexpectedToken (found : String) {offset offset' : Nat} : R offset offset' →
      Corresponds R (.unexpectedToken found offset) (.unexpectedToken found offset')
  | unexpectedEnd {offset offset' : Nat} : R offset offset' →
      Corresponds R (.unexpectedEnd offset) (.unexpectedEnd offset')
  | invalidCharacter (character : Char) {offset offset' : Nat} : R offset offset' →
      Corresponds R (.invalidCharacter character offset) (.invalidCharacter character offset')
  | unterminatedGroup {opened opened' offset offset' : Nat} : R opened opened' → R offset offset' →
      Corresponds R (.unterminatedGroup opened offset) (.unterminatedGroup opened' offset')
  | nestingTooDeep (limit : Nat) {offset offset' : Nat} : R offset offset' →
      Corresponds R (.nestingTooDeep limit offset) (.nestingTooDeep limit offset')
  | trailingToken (found : String) {offset offset' : Nat} : R offset offset' →
      Corresponds R (.trailingToken found offset) (.trailingToken found offset')

structure Config.Corresponds (R : Nat → Nat → Prop) (c c' : Config) : Prop where
  groups : List.Forall₂ (fun g g' => R g.opened g'.opened ∧ g.outer = g'.outer) c.groups c'.groups
  depth_eq : c.depth = c'.depth
  level_eq : c.level = c'.level
  phase_eq : c.phase = c'.phase

variable {R : Nat → Nat → Prop}

theorem lookahead_corresponds {stop stop' : Nat} {ls ls' : List Lexeme}
    (hls : List.Forall₂ (Lexeme.Corresponds R) ls ls') (hstop : R stop stop') :
    (lookahead stop ls).Corresponds R (lookahead stop' ls') := by
  cases hls with
  | nil => exact ⟨rfl, hstop⟩
  | cons hl _ => exact hl

theorem tail_corresponds {ls ls' : List Lexeme}
    (hls : List.Forall₂ (Lexeme.Corresponds R) ls ls') :
    List.Forall₂ (Lexeme.Corresponds R) ls.tail ls'.tail := by
  cases hls with
  | nil => exact .nil
  | cons _ hls => exact hls

theorem trailing_corresponds {l l' : Lexeme} (hl : l.Corresponds R l') :
    List.Forall₂ (Diagnostic.Corresponds R) (reports (Evaluator.trailing l))
      (reports (Evaluator.trailing l')) := by
  obtain ⟨htoken, hstart⟩ := hl
  simp only [Evaluator.trailing, ← htoken]
  split
  · exact .nil
  · exact .cons (.invalidCharacter _ hstart) .nil
  · exact .cons (.trailingToken _ hstart) .nil

namespace Config

variable {c c' d : Config} {l l' : Lexeme} {v : Float} {events : List Event}

theorem corresponds_initial : Config.initial.Corresponds R .initial :=
  ⟨.nil, rfl, rfl, rfl⟩

theorem Supplies.corresponds (h : c.Supplies l v events) (hc : c.Corresponds R c')
    (hl : l.Corresponds R l') :
    ∃ events', c'.Supplies l' v events' ∧
      List.Forall₂ (Diagnostic.Corresponds R) (reports events) (reports events') := by
  obtain ⟨htoken, hstart⟩ := hl
  cases h with
  | complete hv => exact ⟨_, .complete (hc.phase_eq ▸ hv), .nil⟩
  | missing ho ht =>
    rw [htoken] at ht ⊢
    exact ⟨_, .missing (hc.phase_eq ▸ ho) ht, .cons (.unexpectedToken _ hstart) .nil⟩
  | missingEnd ho ht =>
    exact ⟨_, .missingEnd (hc.phase_eq ▸ ho) (htoken ▸ ht), .cons (.unexpectedEnd hstart) .nil⟩
  | skipped hs ht => exact ⟨_, .skipped (hc.phase_eq ▸ hs) (htoken ▸ ht), .nil⟩

theorem Consumes.corresponds (h : c.Consumes l events d) (hc : c.Corresponds R c')
    (hl : l.Corresponds R l') :
    ∃ events' d', c'.Consumes l' events' d' ∧ d.Corresponds R d' ∧
      List.Forall₂ (Diagnostic.Corresponds R) (reports events) (reports events') := by
  obtain ⟨htoken, hstart⟩ := id hl
  obtain ⟨groups', depth', level', phase'⟩ := c'
  obtain ⟨hgroups, rfl, rfl, rfl⟩ := id hc
  cases h with
  | number ho ht =>
    exact ⟨_, _, .number ho (htoken ▸ ht), ⟨hgroups, rfl, rfl, rfl⟩, .nil⟩
  | opening ho ht hd =>
    exact ⟨_, _, .opening ho (htoken ▸ ht) hd, ⟨.cons ⟨hstart, rfl⟩ hgroups, rfl, rfl, rfl⟩, .nil⟩
  | tooDeep ho ht hd =>
    exact ⟨_, _, .tooDeep ho (htoken ▸ ht) hd, ⟨hgroups, rfl, rfl, rfl⟩,
      .cons (.nestingTooDeep _ hstart) .nil⟩
  | invalid ho ht =>
    exact ⟨_, _, .invalid ho (htoken ▸ ht), ⟨hgroups, rfl, rfl, rfl⟩,
      .cons (.invalidCharacter _ hstart) .nil⟩
  | product hs ht hop =>
    obtain ⟨early, hs', hr⟩ := hs.corresponds hc hl
    exact ⟨_, _, .product hs' (htoken ▸ ht) hop, ⟨hgroups, rfl, rfl, rfl⟩, by simpa using hr⟩
  | sum hs ht hop =>
    obtain ⟨early, hs', hr⟩ := hs.corresponds hc hl
    exact ⟨_, _, .sum hs' (htoken ▸ ht) hop, ⟨hgroups, rfl, rfl, rfl⟩, by simpa using hr⟩
  | closed hs hg ht =>
    obtain ⟨early, hs', hr⟩ := hs.corresponds hc hl
    rw [hg] at hgroups
    cases hgroups with
    | cons hgroup houter =>
      refine ⟨_, _, .closed hs' rfl (htoken ▸ ht), ⟨houter, rfl, hgroup.2, rfl⟩, ?_⟩
      simpa using hr
  | unclosed hs hg ht hop =>
    obtain ⟨early, hs', hr⟩ := hs.corresponds hc hl
    rw [hg] at hgroups
    cases hgroups with
    | cons hgroup houter =>
      refine ⟨_, _, .unclosed hs' rfl (htoken ▸ ht) (htoken ▸ hop),
        ⟨houter, rfl, hgroup.2, rfl⟩, ?_⟩
      simp only [reports_append, reports_total, List.append_nil, reports_reported, reports_nil]
      exact List.rel_append hr (.cons (.unterminatedGroup hgroup.1 hstart) .nil)
  | nested hs ht => exact ⟨_, _, .nested hs (htoken ▸ ht), ⟨hgroups, rfl, rfl, rfl⟩, .nil⟩
  | matched hs ht => exact ⟨_, _, .matched hs (htoken ▸ ht), ⟨hgroups, rfl, rfl, rfl⟩, .nil⟩
  | passed hs hlp hrp he =>
    exact ⟨_, _, .passed hs (htoken ▸ hlp) (htoken ▸ hrp) (htoken ▸ he), ⟨hgroups, rfl, rfl, rfl⟩,
      .nil⟩

theorem Finishes.corresponds (h : c.Finishes l v events) (hc : c.Corresponds R c')
    (hl : l.Corresponds R l') :
    ∃ events', c'.Finishes l' v events' ∧
      List.Forall₂ (Diagnostic.Corresponds R) (reports events) (reports events') := by
  obtain ⟨hs, hg, hop⟩ := h
  obtain ⟨early, hs', hr⟩ := hs.corresponds hc hl
  have hgroups := hc.groups
  rw [hg, List.forall₂_nil_left_iff] at hgroups
  rw [hc.level_eq]
  exact ⟨_, .mk hs' hgroups (hl.token_eq ▸ hop), by simpa using hr⟩

theorem Runs.corresponds {stop stop' : Nat} {ls ls' rest : List Lexeme}
    (h : c.Runs stop ls v events rest) (hc : c.Corresponds R c')
    (hls : List.Forall₂ (Lexeme.Corresponds R) ls ls') (hstop : R stop stop') :
    ∃ events' rest', c'.Runs stop' ls' v events' rest' ∧
      List.Forall₂ (Lexeme.Corresponds R) rest rest' ∧
      List.Forall₂ (Diagnostic.Corresponds R) (reports events) (reports events') := by
  induction h generalizing c' ls' with
  | finished hf =>
    obtain ⟨events', hf', hr⟩ := hf.corresponds hc (lookahead_corresponds hls hstop)
    exact ⟨events', ls', .finished hf', hls, hr⟩
  | consumed hcon _ ih =>
    obtain ⟨early, d', hcon', hd, hr⟩ := hcon.corresponds hc (lookahead_corresponds hls hstop)
    obtain ⟨later, rest', hruns, hrest, hr'⟩ := ih hd (tail_corresponds hls)
    refine ⟨_, rest', .consumed hcon' hruns, hrest, ?_⟩
    simp only [reports_append, reports_ofLookahead, List.append_nil]
    exact List.rel_append hr hr'

end Config

theorem Evaluator.Ready.corresponds {e e' : Evaluator} {t t' : Tokenizer} (h : e.Ready t)
    (h' : e'.Ready t') (hls : List.Forall₂ (Lexeme.Corresponds R) t.lexemes t'.lexemes)
    (hstop : R t.finish t'.finish) :
    e.parse.1 = e'.parse.1 ∧ e.parse.2.current.Corresponds R e'.parse.2.current ∧
      ∃ later later', e.parse.2.diagnostics = e.diagnostics ++ later ∧
        e'.parse.2.diagnostics = e'.diagnostics ++ later' ∧
        List.Forall₂ (Diagnostic.Corresponds R) later later' := by
  obtain ⟨events, rest, hruns, hcurrent, hdiagnostics⟩ := h.parse_runs
  obtain ⟨events', rest', hruns', hcurrent', hdiagnostics'⟩ := h'.parse_runs
  obtain ⟨other, final, hother, hfinal, hr⟩ :=
    hruns.corresponds Config.corresponds_initial hls hstop
  obtain ⟨hvalue, rfl, rfl⟩ := hruns'.unique hother
  have hlook := lookahead_corresponds hfinal hstop
  refine ⟨hvalue.symm, ?_, _, _, hdiagnostics, hdiagnostics',
    List.rel_append hr (trailing_corresponds hlook)⟩
  rwa [hcurrent, hcurrent']

end Calculator
