import Calculator.Proofs.Calls
import Calculator.Proofs.Correspondence

namespace Calculator

namespace Config

inductive Passes (p : Config → Lexeme → Prop) :
    Config → List Lexeme → List Event → Config → Prop where
  | nil {c : Config} : Passes p c [] [] c
  | cons {c d e : Config} {l : Lexeme} {ls : List Lexeme} {events later : List Event} :
      p c l → c.Consumes l events d → Passes p d ls later e →
      Passes p c (l :: ls) (events ++ later) e

variable {p : Config → Lexeme → Prop} {c d : Config} {l : Lexeme} {ls rs rest : List Lexeme}
  {v w : Float} {events later : List Event} {stop : Nat}

theorem Passes.append {e : Config} (h : c.Passes p ls events d) (h' : d.Passes p rs later e) :
    c.Passes p (ls ++ rs) (events ++ later) e := by
  induction h with
  | nil => exact h'
  | cons hp hc _ ih =>
    rw [List.cons_append, List.append_assoc]
    exact .cons hp hc (ih h')

theorem Passes.single (hp : p c l) (h : c.Consumes l events d) : c.Passes p [l] events d := by
  have hpasses := Passes.cons hp h .nil
  rwa [List.append_nil] at hpasses

theorem passes_or_finishes (c : Config) (ls : List Lexeme) :
    (∃ events d, c.Passes (fun _ _ => True) ls events d) ∨
      ∃ before l after events d v last, ls = before ++ l :: after ∧
        c.Passes (fun _ _ => True) before events d ∧ d.Finishes l v last := by
  induction ls generalizing c with
  | nil => exact .inl ⟨[], c, .nil⟩
  | cons l ls ih =>
    rcases c.consumes_or_finishes l with ⟨d, events, hc⟩ | ⟨v, last, hf⟩
    · rcases ih d with ⟨later, e, hd⟩ | ⟨before, m, after, later, e, v, last, rfl, hd, hf⟩
      · exact .inl ⟨_, e, .cons trivial hc hd⟩
      · exact .inr ⟨l :: before, m, after, _, e, v, last, rfl, .cons trivial hc hd, hf⟩
    · exact .inr ⟨[], l, ls, [], c, v, last, rfl, .nil, hf⟩

theorem Passes.offset_mem (h : c.Passes p ls events d) {r : Diagnostic} (hr : r ∈ reports events) :
    ∃ l ∈ ls, l.start = r.offset := by
  induction h with
  | nil => simp at hr
  | @cons _ _ _ l _ _ _ _ hc _ ih =>
    rw [reports_append, List.mem_append] at hr
    rcases hr with hr | hr
    · exact ⟨l, List.mem_cons_self, (hc.fits hr).offset_eq.symm⟩
    · obtain ⟨m, hm, ho⟩ := ih hr
      exact ⟨m, List.mem_cons_of_mem l hm, ho⟩

theorem Runs.of_passes {all : List Event} (h : c.Runs stop (ls ++ rs) v all rest)
    (hp : c.Passes p ls events d) :
    ∃ late, d.Runs stop rs v late rest ∧ reports all = reports events ++ reports late := by
  induction hp generalizing all with
  | nil => exact ⟨all, h, rfl⟩
  | cons _ hc _ ih =>
    cases h with
    | finished hf => exact (hc.not_finishes hf).elim
    | consumed hc' hruns =>
      obtain ⟨rfl, rfl⟩ := hc.unique hc'
      obtain ⟨late, hlate, hr⟩ := ih hruns
      exact ⟨late, hlate, by simp [hr]⟩

theorem Runs.of_finishes (h : c.Runs stop ls v events rest)
    (hf : c.Finishes (lookahead stop ls) w later) : v = w ∧ events = later ∧ rest = ls :=
  h.unique (.finished hf)

theorem Runs.suffix (h : c.Runs stop ls v events rest) : rest <:+ ls := by
  induction h with
  | finished => exact List.suffix_refl _
  | consumed _ _ ih => exact ih.trans (List.tail_suffix _)

theorem Passes.corresponds {R : Nat → Nat → Prop} {c' : Config} {ls' : List Lexeme}
    (h : c.Passes p ls events d) (hc : c.Corresponds R c')
    (hls : List.Forall₂ (Lexeme.Corresponds R) ls ls') :
    ∃ events' d', c'.Passes (fun _ _ => True) ls' events' d' ∧ d.Corresponds R d' ∧
      List.Forall₂ (Diagnostic.Corresponds R) (reports events) (reports events') := by
  induction h generalizing c' ls' with
  | nil =>
    cases hls
    exact ⟨[], c', .nil, hc, .nil⟩
  | cons _ hcon _ ih =>
    cases hls with
    | cons hl hls =>
      obtain ⟨early, d', hcon', hd, hr⟩ := hcon.corresponds hc hl
      obtain ⟨later, e', hpasses, he, hr'⟩ := ih hd hls
      refine ⟨_, e', .cons trivial hcon' hpasses, he, ?_⟩
      rw [reports_append, reports_append]
      exact List.rel_append hr hr'

end Config

def Evaluator.lexemes (e : Evaluator) : List Lexeme :=
  if e.current.isEnd then [] else e.current :: e.tokenizer.lexemes

namespace Evaluator.Pulled

variable {p : Config → Lexeme → Prop} {e f : Evaluator} {c d : Config} {t : Tokenizer}

theorem lexemes_eq (h : e.Pulled t) : e.lexemes = t.lexemes := by
  rw [lexemes, Tokenizer.lexemes.eq_1 t, h]
  rfl

theorem advance_trace (h : e.Pulled t) (n : Nat) :
    e.advance.trace.toList ++ (t.next.2.lexemes.tail.take n).map Event.scanned =
      e.trace.toList ++ (t.lexemes.tail.take (n + 1)).map Event.scanned := by
  have hmem : ∀ l ∈ t.lexemes.tail, l.isEnd = false :=
    fun l hl => Tokenizer.mem_lexemes_isEnd (List.mem_of_mem_tail hl)
  rw [Evaluator.advance_trace, h.advance.current_eq, Tokenizer.next_lexemes]
  cases hls : t.lexemes.tail with
  | nil => simp [Event.ofLookahead, Lexeme.isEnd, Token.isEnd]
  | cons l ls =>
    rw [hls] at hmem
    simp [Event.ofLookahead, hmem]

theorem proceeds {ls rest : List Lexeme} (h : e.Pulled t) (hpasses : c.Passes p ls [] d)
    (hls : t.lexemes = ls ++ rest) :
    ∃ f u, Proceeds p e c f d ∧ f.Pulled u ∧ u.lexemes = rest ∧
      f.trace.toList = e.trace.toList ++ (t.lexemes.tail.take ls.length).map Event.scanned := by
  generalize hsilent : ([] : List Event) = events at hpasses
  induction hpasses generalizing e t with
  | nil => exact ⟨e, t, .start, h, hls, by simp⟩
  | @cons c d d' l ls events later hp hcon _ ih =>
    obtain ⟨rfl, rfl⟩ := List.nil_eq_append_iff.mp hsilent
    rw [← h.current_of_cons hls] at hp hcon
    have htail : t.next.2.lexemes = ls ++ rest := by
      rw [t.next_lexemes, hls]
      rfl
    obtain ⟨f, u, hf, hu, hrest, htrace⟩ := ih (h.record []).advance htail rfl
    refine ⟨f, u, hf.head hp hcon.feed_eq, hu, hrest, ?_⟩
    rw [htrace, (h.record []).advance_trace, record_trace, List.append_nil, List.length_cons]

end Evaluator.Pulled

theorem Proceeds.passes {p : Config → Lexeme → Prop} {e f : Evaluator} {c d : Config}
    {t : Tokenizer} (h : Proceeds p e c f d) (he : e.Pulled t) :
    ∃ u, f.Pulled u ∧ (f.current.isEnd = false → ∃ before events,
      t.lexemes = before ++ u.lexemes ∧ c.Passes p before events d ∧
        f.diagnostics = e.diagnostics ++ reports events) := by
  induction h with
  | start => exact ⟨t, he, fun _ => ⟨[], [], rfl, .nil, by simp⟩⟩
  | @step f d d' events hproceeds hp hfeed ih =>
    obtain ⟨u, hu, hpassed⟩ := ih
    refine ⟨u.next.2, (hu.record events).advance, fun hnext => ?_⟩
    have hne : (lookahead u.next.2.finish u.lexemes.tail).isEnd = false := by
      rwa [(hu.record events).advance.current_eq, u.next_lexemes] at hnext
    obtain ⟨l, ls, hls⟩ : ∃ l ls, u.lexemes = l :: ls := by
      apply List.exists_cons_of_ne_nil
      intro hnil
      rw [hnil] at hne
      cases hne
    have hl := hu.current_of_cons hls
    have hend : l.isEnd = false := Tokenizer.mem_lexemes_isEnd (hls ▸ List.mem_cons_self)
    obtain ⟨before, earlier, hbefore, hpasses, hdiagnostics⟩ := hpassed (hl ▸ hend)
    have hcon := Config.feed_eq_consumed_iff.mp hfeed
    rw [hl] at hp hcon
    refine ⟨before ++ [l], earlier ++ events, ?_, hpasses.append (.single hp hcon), ?_⟩
    · rw [hbefore, u.next_lexemes, hls, List.append_cons]
      rfl
    · rw [Evaluator.diagnostics_eq, Evaluator.advance_trace, Evaluator.record_trace]
      simp [← Evaluator.diagnostics_eq, hdiagnostics]

end Calculator
