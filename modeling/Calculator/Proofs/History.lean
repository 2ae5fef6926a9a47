import Calculator.Proofs.Runs

namespace Calculator

inductive Operation where
  | parse
  | tryParse
  | advance
  deriving DecidableEq, Repr

def Operation.perform (e : Evaluator) : Operation → Evaluator
  | parse => e.parse.2
  | tryParse => e.tryParse.2
  | advance => e.advance

/-- An evaluator that is made when `pulls` lexemes have been handed out, after the operations. -/
def history (source : String) (pulls : Nat) (ops : List Operation) : Evaluator :=
  ops.foldl Operation.perform (.new ((Tokenizer.ofString source).after pulls))

theorem Evaluator.tryParse_snd (e : Evaluator) : e.tryParse.2 = e.parse.2 := by
  rw [tryParse]
  cases e.parse.2.diagnostics <;> rfl

theorem history_induction {source : String} {P : Evaluator → Prop}
    (hnew : ∀ n, P (.new ((Tokenizer.ofString source).after n)))
    (hparse : ∀ e, P e → P e.parse.2) (hadvance : ∀ e, P e → P e.advance)
    (pulls : Nat) (ops : List Operation) : P (history source pulls ops) := by
  unfold history
  apply List.foldlRecOn ops Operation.perform (hnew pulls)
  intro e he op _
  cases op with
  | parse => exact hparse e he
  | tryParse =>
    rw [Operation.perform, Evaluator.tryParse_snd]
    exact hparse e he
  | advance => exact hadvance e he

theorem history_ready (source : String) (pulls : Nat) (ops : List Operation) :
    ∃ n, (history source pulls ops).Ready ((Tokenizer.ofString source).after n) := by
  apply history_induction (P := fun e => ∃ n, e.Ready ((Tokenizer.ofString source).after n))
  · intro n
    exact ⟨n, Evaluator.ready_new _⟩
  · rintro e ⟨n, hn⟩
    obtain ⟨_, m, hm, _⟩ := hn.parse
    rw [Tokenizer.after_after] at hm
    exact ⟨n + m, hm⟩
  · rintro e ⟨n, hn⟩
    refine ⟨n + 1, ?_⟩
    rw [← Tokenizer.after_after]
    exact hn.advance

end Calculator
