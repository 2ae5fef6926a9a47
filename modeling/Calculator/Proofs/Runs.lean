import Calculator.Evaluation
import Calculator.Proofs.Scanning
import Calculator.Proofs.Steps

namespace Calculator

inductive Config.Runs (stop : Nat) :
    Config → List Lexeme → Float → List Event → List Lexeme → Prop where
  | finished {c : Config} {ls : List Lexeme} {v : Float} {events : List Event} :
      c.Finishes (lookahead stop ls) v events → Runs stop c ls v events ls
  | consumed {c d : Config} {ls rest : List Lexeme} {v : Float} {events later : List Event} :
      c.Consumes (lookahead stop ls) events d → Runs stop d ls.tail v later rest →
      Runs stop c ls v (events ++ Event.ofLookahead (lookahead stop ls.tail) ++ later) rest

namespace Config.Runs

theorem unique {stop : Nat} {c : Config} {ls rest rest' : List Lexeme} {v v' : Float}
    {events events' : List Event} (h : c.Runs stop ls v events rest)
    (h' : c.Runs stop ls v' events' rest') : v = v' ∧ events = events' ∧ rest = rest' := by
  induction h generalizing v' events' rest' with
  | finished hf =>
    cases h' with
    | finished hf' =>
      obtain ⟨rfl, rfl⟩ := hf.unique hf'
      exact ⟨rfl, rfl, rfl⟩
    | consumed hc' => exact (hc'.not_finishes hf).elim
  | consumed hc _ ih =>
    cases h' with
    | finished hf' => exact (hc.not_finishes hf').elim
    | consumed hc' hr' =>
      obtain ⟨rfl, rfl⟩ := hc.unique hc'
      obtain ⟨rfl, rfl, rfl⟩ := ih hr'
      exact ⟨rfl, rfl, rfl⟩

end Config.Runs

namespace Evaluator

def Pulled (e : Evaluator) (t : Tokenizer) : Prop :=
  t.next = (e.current, e.tokenizer)

theorem pulled_new (t : Tokenizer) : (new t).Pulled t := rfl

theorem record_trace (e : Evaluator) (events : List Event) :
    (e.record events).trace.toList = e.trace.toList ++ events :=
  Array.toList_appendList

theorem advance_trace (e : Evaluator) :
    e.advance.trace.toList = e.trace.toList ++ Event.ofLookahead e.advance.current :=
  Array.toList_appendList

theorem diagnostics_eq (e : Evaluator) : e.diagnostics = reports e.trace.toList := rfl

theorem diagnostics_new (t : Tokenizer) : (new t).diagnostics = [] := by
  simp [diagnostics_eq, new]

theorem pulled_ofString (source : String) : (ofString source).Pulled (.ofString source) := rfl

theorem diagnostics_ofString (source : String) : (ofString source).diagnostics = [] :=
  diagnostics_new _

namespace Pulled

variable {e : Evaluator} {t : Tokenizer}

theorem current_eq (h : e.Pulled t) : e.current = lookahead t.finish t.lexemes := by
  rw [← t.next_fst, h]

theorem current_of_cons (h : e.Pulled t) {l : Lexeme} {ls : List Lexeme}
    (hls : t.lexemes = l :: ls) : e.current = l := by
  rw [h.current_eq, hls, lookahead_cons]

theorem record (h : e.Pulled t) (events : List Event) : (e.record events).Pulled t := h

theorem advance (h : e.Pulled t) : e.advance.Pulled t.next.2 := by
  rw [h]
  rfl

theorem run (h : e.Pulled t) (c : Config) :
    ∃ events n, (e.run c).2.Pulled (t.after n) ∧
      c.Runs t.finish t.lexemes (e.run c).1 events (t.lexemes.drop n) ∧
      (e.run c).2.trace.toList = e.trace.toList ++ events := by
  fun_induction Evaluator.run e c generalizing t with
  | case1 e c v events hf =>
    rw [h.current_eq, Config.feed_eq_finished_iff] at hf
    exact ⟨events, 0, h, .finished hf, e.record_trace events⟩
  | case2 e c d events hc ih =>
    obtain ⟨later, n, hn, hruns, htrace⟩ := ih (h.record events).advance
    rw [h.current_eq, Config.feed_eq_consumed_iff] at hc
    rw [t.next_finish, t.next_lexemes, List.drop_tail] at hruns
    refine ⟨_, n + 1, hn, .consumed hc hruns, ?_⟩
    have hnext := (h.record events).advance.current_eq
    rw [t.next_finish, t.next_lexemes] at hnext
    rw [htrace, advance_trace, record_trace, hnext, List.append_assoc, List.append_assoc,
      List.append_assoc]

end Pulled

theorem run_depth (e : Evaluator) {c : Config} (hc : c.Sound) : (e.run c).2.depth = 0 := by
  fun_induction Evaluator.run e c with
  | case1 e c v events hf => exact (Config.feed_eq_finished_iff.mp hf).depth_eq hc
  | case2 e c d events hfeed ih => exact ih ((Config.feed_eq_consumed_iff.mp hfeed).sound hc)

theorem parse_eq {e : Evaluator} (h : e.depth = 0) :
    e.parse = ((e.run .initial).1,
      (e.run .initial).2.record (trailing (e.run .initial).2.current)) := by
  rw [parse, start, h]
  rfl

theorem diagnostics_parse {e : Evaluator} (h : e.depth = 0) :
    e.parse.2.diagnostics =
      (e.run .initial).2.diagnostics ++ reports (trailing (e.run .initial).2.current) := by
  rw [parse_eq h, diagnostics_eq, record_trace, reports_append]
  rfl

/-- No group is open, and the lookahead is what the tokenizer `t` hands out next. -/
structure Ready (e : Evaluator) (t : Tokenizer) : Prop where
  pulled : e.Pulled t
  depth_eq : e.depth = 0

theorem ready_new (t : Tokenizer) : (new t).Ready t := ⟨pulled_new t, rfl⟩

theorem ready_ofString (source : String) : (ofString source).Ready (.ofString source) :=
  ready_new _

namespace Ready

variable {e : Evaluator} {t : Tokenizer}

theorem advance (h : e.Ready t) : e.advance.Ready t.next.2 :=
  ⟨h.pulled.advance, h.depth_eq⟩

theorem parse (h : e.Ready t) :
    ∃ events n, e.parse.2.Ready (t.after n) ∧
      Config.initial.Runs t.finish t.lexemes e.parse.1 events (t.lexemes.drop n) ∧
      e.parse.2.trace.toList =
        e.trace.toList ++ events ++ trailing (lookahead t.finish (t.lexemes.drop n)) := by
  obtain ⟨events, n, hn, hruns, htrace⟩ := h.pulled.run .initial
  have hcurrent := hn.current_eq
  rw [t.after_finish, t.after_lexemes] at hcurrent
  rw [parse_eq h.depth_eq, record_trace, htrace, hcurrent]
  exact ⟨events, n, ⟨hn, e.run_depth Config.sound_initial⟩, hruns, rfl⟩

theorem parse_runs (h : e.Ready t) :
    ∃ events rest, Config.initial.Runs t.finish t.lexemes e.parse.1 events rest ∧
      e.parse.2.current = lookahead t.finish rest ∧
      e.parse.2.diagnostics =
        e.diagnostics ++ (reports events ++ reports (trailing (lookahead t.finish rest))) := by
  obtain ⟨events, n, hn, hruns, htrace⟩ := h.parse
  refine ⟨events, t.lexemes.drop n, hruns, ?_, ?_⟩
  · rw [hn.pulled.current_eq, t.after_finish, t.after_lexemes]
  · rw [diagnostics_eq, htrace, reports_append, reports_append, List.append_assoc]
    rfl

end Ready

end Evaluator

structure RunOf (source : String) (events : List Event) (rest : List Lexeme) : Prop where
  runs : Config.initial.Runs source.utf8ByteSize (lexemesOf source) (evaluate source) events rest
  trace_eq : ((Evaluator.ofString source).run .initial).2.trace.toList =
    Event.ofLookahead (lookahead source.utf8ByteSize (lexemesOf source)) ++ events
  current_eq : ((Evaluator.ofString source).run .initial).2.current =
    lookahead source.utf8ByteSize rest

theorem exists_runOf (source : String) : ∃ events rest, RunOf source events rest := by
  have hpulled := Evaluator.pulled_ofString source
  have hfirst := hpulled.current_eq
  obtain ⟨events, n, hn, hruns, htrace⟩ := hpulled.run .initial
  have hcurrent := hn.current_eq
  rw [Tokenizer.after_finish, Tokenizer.after_lexemes] at hcurrent
  rw [Tokenizer.finish_ofString] at hfirst hruns hcurrent
  have hnew : (Evaluator.ofString source).trace.toList =
      Event.ofLookahead (lookahead source.utf8ByteSize (lexemesOf source)) :=
    congrArg Event.ofLookahead hfirst
  rw [hnew] at htrace
  exact ⟨events, _, hruns, htrace, hcurrent⟩

namespace RunOf

variable {source : String} {events : List Event} {rest : List Lexeme}

theorem diagnostics_run (h : RunOf source events rest) :
    ((Evaluator.ofString source).run .initial).2.diagnostics = reports events := by
  rw [Evaluator.diagnostics_eq, h.trace_eq, reports_append, reports_ofLookahead, List.nil_append]

theorem diagnostics_eq (h : RunOf source events rest) :
    (Evaluator.ofString source).parse.2.diagnostics =
      reports events ++ reports (Evaluator.trailing (lookahead source.utf8ByteSize rest)) := by
  rw [Evaluator.diagnostics_parse rfl, h.diagnostics_run, h.current_eq]

end RunOf

theorem tryEvaluate_eq (source : String) :
    tryEvaluate source =
      match (Evaluator.ofString source).parse.2.diagnostics with
      | [] => .ok (evaluate source)
      | d :: _ => .error d := by
  simp only [tryEvaluate, Evaluator.tryParse, evaluate]
  cases (Evaluator.ofString source).parse.2.diagnostics <;> rfl

theorem tryEvaluate_eq_ok_iff {source : String} {v : Float} :
    tryEvaluate source = .ok v ↔
      (Evaluator.ofString source).parse.2.diagnostics = [] ∧ evaluate source = v := by
  rw [tryEvaluate_eq]
  cases (Evaluator.ofString source).parse.2.diagnostics <;> simp

theorem tryEvaluate_eq_error_iff {source : String} {d : Diagnostic} :
    tryEvaluate source = .error d ↔
      (Evaluator.ofString source).parse.2.diagnostics.head? = some d := by
  rw [tryEvaluate_eq]
  cases (Evaluator.ofString source).parse.2.diagnostics <;> simp

end Calculator
