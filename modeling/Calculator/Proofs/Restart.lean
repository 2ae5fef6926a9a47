import Calculator.Proofs.Correspondence
import Calculator.Proofs.History
import Calculator.Proofs.Shifting

namespace Calculator

def Diagnostic.shift (k : Nat) : Diagnostic → Diagnostic
  | unexpectedToken found offset => unexpectedToken found (offset + k)
  | unexpectedEnd offset => unexpectedEnd (offset + k)
  | invalidCharacter character offset => invalidCharacter character (offset + k)
  | unterminatedGroup opened offset => unterminatedGroup (opened + k) (offset + k)
  | nestingTooDeep limit offset => nestingTooDeep limit (offset + k)
  | trailingToken found offset => trailingToken found (offset + k)

theorem corresponds_shift (k : Nat) (ls : List Lexeme) :
    List.Forall₂ (Lexeme.Corresponds fun offset offset' => offset' = offset + k) ls
      (ls.map (Lexeme.shift k)) := by
  rw [List.forall₂_map_right_iff, List.forall₂_same]
  exact fun _ _ => ⟨rfl, rfl⟩

theorem eq_map_shift {k : Nat} {ds ds' : List Diagnostic}
    (h : List.Forall₂ (Diagnostic.Corresponds fun offset offset' => offset' = offset + k) ds ds') :
    ds' = ds.map (Diagnostic.shift k) := by
  induction h with
  | nil => rfl
  | cons hd _ ih =>
    rw [List.map_cons, ih]
    congr 1
    cases hd <;> simp_all [Diagnostic.shift]

theorem Evaluator.Pulled.suffix {source : String} {e : Evaluator} {n : Nat}
    (h : e.Pulled ((Tokenizer.ofString source).after n)) :
    ∃ before after, source = before ++ after ∧ before.utf8ByteSize = e.current.start ∧
      e.Pulled ((Tokenizer.ofString after).shift e.current.start) := by
  obtain ⟨read, hsource, hcursor⟩ := (Tokenizer.ofString source).after_ahead n
  generalize (Tokenizer.ofString source).after n = t at h hsource hcursor
  have hahead := List.takeWhile_append_dropWhile (p := isBlank) (l := t.ahead)
  have hstart : e.current.start = t.cursor + byteLength (t.ahead.takeWhile isBlank) := by
    rw [← t.next_start, h]
  refine ⟨String.ofList (read ++ t.ahead.takeWhile isBlank),
    String.ofList (t.ahead.dropWhile isBlank), ?_, ?_, ?_⟩
  · rw [← String.ofList_append, List.append_assoc, hahead, ← hsource]
    exact String.ofList_toList.symm
  · rw [hstart, hcursor, String.ofList_append, String.utf8ByteSize_append]
    exact (congrArg (· + _) (Nat.zero_add _)).symm
  · have hblank : ∀ c ∈ t.ahead.takeWhile isBlank, isBlank c = true :=
      fun c hc => List.mem_takeWhile_imp hc
    have hskip := Tokenizer.next_skip hblank (t.ahead.dropWhile isBlank) t.cursor t.latest none
    rw [hahead] at hskip
    rw [Evaluator.Pulled, Tokenizer.shift, Tokenizer.ofString, String.toList_ofList, Nat.zero_add,
      hstart]
    exact hskip.symm.trans h

theorem parse_starts_afresh (source : String) (pulls : Nat) (ops : List Operation) :
    let e := history source pulls ops
    (e.current.isEnd = true → e.current.start = source.utf8ByteSize) ∧
    ∃ before after, source = before ++ after ∧ before.utf8ByteSize = e.current.start ∧
      let fresh := Evaluator.ofString after
      e.parse.1 = fresh.parse.1 ∧
      e.parse.2.current.token = fresh.parse.2.current.token ∧
      e.parse.2.current.start = fresh.parse.2.current.start + e.current.start ∧
      e.parse.2.diagnostics =
        e.diagnostics ++ fresh.parse.2.diagnostics.map (Diagnostic.shift e.current.start) := by
  intro e
  obtain ⟨n, hn, hdepth⟩ := history_ready source pulls ops
  refine ⟨?_, ?_⟩
  · intro hend
    rw [hn.current_eq, Lexeme.isEnd, Token.isEnd_iff] at hend
    rw [hn.current_eq, lookahead_isEnd (fun l hl => Tokenizer.mem_lexemes_isEnd hl) hend,
      lookahead_nil, Tokenizer.after_finish, Tokenizer.finish_ofString]
  · obtain ⟨before, after, hsource, hsize, hshift⟩ := hn.suffix
    refine ⟨before, after, hsource, hsize, ?_⟩
    have hls := corresponds_shift e.current.start (Tokenizer.ofString after).lexemes
    rw [← Tokenizer.lexemes_shift] at hls
    obtain ⟨hvalue, hcurrent, later, later', hlater, hlater', hr⟩ :=
      (Evaluator.ready_ofString after).corresponds ⟨hshift, hdepth⟩ hls (Tokenizer.finish_shift _ _)
    rw [Evaluator.diagnostics_ofString, List.nil_append] at hlater
    refine ⟨hvalue.symm, hcurrent.token_eq.symm, hcurrent.start, ?_⟩
    rw [hlater, hlater', eq_map_shift hr]

end Calculator
