import Calculator.Proofs.Mending
import Calculator.Proofs.Passages
import Calculator.Proofs.Tokenization

namespace Calculator

def Balanced (ls : List Lexeme) : Prop :=
  ls.countP (·.token = .leftParen) = ls.countP (·.token = .rightParen)

theorem nesting_eq_countP (ls : List Lexeme) :
    nesting ls = (ls.countP (·.token = .leftParen) : Int) - ls.countP (·.token = .rightParen) := by
  induction ls with
  | nil => rfl
  | cons l ls ih =>
    rw [nesting_cons, ih, List.countP_cons, List.countP_cons]
    cases l.token <;> simp [Token.weight] <;> omega

theorem balanced_iff {ls : List Lexeme} : Balanced ls ↔ nesting ls = 0 := by
  rw [nesting_eq_countP, Balanced]
  omega

structure FirstGroup (group ls : List Lexeme) : Prop where
  begins : group <+: ls
  ne_nil : group ≠ []
  balanced : Balanced group
  shortest : ∀ other, other <+: ls → other ≠ [] → Balanced other → group.length ≤ other.length

def PassedOver (passed ls : List Lexeme) : Prop :=
  FirstGroup passed ls ∨ passed = ls ∧ ∀ other, other <+: ls → other ≠ [] → ¬ Balanced other

section PassedOver

variable {l m : Lexeme} {inside : List Lexeme}

theorem StaysOpen.not_balanced (h : StaysOpen 1 inside) (hl : l.token = .leftParen) :
    ∀ other, other <+: l :: inside → other ≠ [] → ¬ Balanced other := by
  intro other hother hne hbalanced
  rcases List.prefix_cons_iff.mp hother with rfl | ⟨before, rfl, hbefore⟩
  · exact hne rfl
  · have hopen := h before hbefore
    rw [balanced_iff, nesting_cons, hl, Token.weight] at hbalanced
    omega

theorem StaysOpen.firstGroup (h : StaysOpen 1 inside) (hn : nesting inside = 0)
    (hl : l.token = .leftParen) (hm : m.token = .rightParen) (rest : List Lexeme) :
    FirstGroup (l :: inside ++ [m]) (l :: inside ++ m :: rest) where
  begins := ⟨rest, by simp⟩
  ne_nil := by simp
  balanced := by simp [balanced_iff, hn, hl, hm, Token.weight]
  shortest := by
    intro other hother hne hbalanced
    by_contra hlt
    rw [List.length_append, List.length_singleton, Nat.not_le] at hlt
    refine h.not_balanced hl other ?_ hne hbalanced
    exact List.prefix_of_prefix_length_le hother (List.prefix_append _ _) (Nat.le_of_lt_succ hlt)

end PassedOver

namespace Config

variable {p : Config → Lexeme → Prop} {c : Config} {l : Lexeme} {ls inside : List Lexeme} {n : Nat}

theorem consumes_skipping (c : Config) (hl : l.isEnd = false) (h : 0 < l.token.weight + n) :
    ∃ m : Nat, (m : Int) = l.token.weight + n ∧
      Consumes { c with phase := .skipping n } l [] { c with phase := .skipping m } := by
  cases ht : l.token with
  | leftParen =>
    refine ⟨n + 1, ?_, .nested rfl ht⟩
    rw [Token.weight]
    omega
  | rightParen =>
    rw [ht, Token.weight] at h
    have hconsumes : Consumes { c with phase := .skipping n } l [] _ := .matched rfl ht
    rw [if_neg (by omega)] at hconsumes
    refine ⟨n - 1, ?_, hconsumes⟩
    rw [Token.weight]
    omega
  | endOfInput => exact absurd ht (Lexeme.token_ne_endOfInput hl)
  | _ =>
    refine ⟨n, ?_, .passed rfl (by simp [ht]) (by simp [ht]) (by simp [ht])⟩
    simp [Token.weight]

theorem passes_skipping (c : Config) (ho : StaysOpen n inside)
    (hinside : ∀ l ∈ inside, l.isEnd = false)
    (hp : ∀ k l, l.isEnd = false → p { c with phase := .skipping k } l) :
    ∃ m : Nat, (m : Int) = nesting inside + n ∧
      Passes p { c with phase := .skipping n } inside [] { c with phase := .skipping m } := by
  induction inside generalizing n with
  | nil => exact ⟨n, by simp, .nil⟩
  | cons l inside ih =>
    obtain ⟨hl, hinside⟩ := List.forall_mem_cons.mp hinside
    have hfirst := ho [l] ⟨inside, rfl⟩
    rw [nesting_cons, nesting_nil, Int.add_zero] at hfirst
    obtain ⟨k, hk, hconsumes⟩ := consumes_skipping c hl hfirst
    have hopen : StaysOpen k inside := by
      intro before hbefore
      have hlonger := ho (l :: before) (List.cons_prefix_cons.mpr ⟨rfl, hbefore⟩)
      rw [nesting_cons] at hlonger
      omega
    obtain ⟨m, hm, hpasses⟩ := ih hopen hinside
    refine ⟨m, ?_, .cons (hp n l hl) hconsumes hpasses⟩
    rw [nesting_cons]
    omega

theorem Blocks.passes (h : c.Blocks l) (hls : ∀ m ∈ ls, m.isEnd = false)
    (hp : ∀ k m, m.isEnd = false → p { c with phase := .skipping k } m) :
    ∃ inside rest d, ls = inside ++ rest ∧ PassedOver (l :: inside) (l :: ls) ∧
      Passes p { c with phase := .skipping 1 } inside [] d ∧
      (d = { c with phase := .complete 0 } ∨
        rest = [] ∧ ∃ m, d = { c with phase := .skipping m }) := by
  obtain ⟨_, hl, _⟩ := h
  rcases behindGroup_cases Nat.one_pos ls with ⟨inside, m, hsplit, hm, hn, ho⟩ | ⟨_, ho⟩
  · have hn : nesting inside = 0 := by omega
    rw [hsplit] at hls
    have hinside : ∀ x ∈ inside, x.isEnd = false := fun x hx => hls x (List.mem_append_left _ hx)
    obtain ⟨k, hk, hpasses⟩ := passes_skipping c ho hinside hp
    have hclose : Consumes { c with phase := .skipping k } m [] _ := .matched rfl hm
    rw [if_pos (by omega)] at hclose
    refine ⟨inside ++ [m], behindGroup 1 ls, _, ?_, .inl ?_, hpasses.append (.single ?_ hclose),
      .inl rfl⟩
    · rw [List.append_assoc]
      exact hsplit
    · have hgroup := ho.firstGroup hn hl hm (behindGroup 1 ls)
      rwa [List.cons_append, List.cons_append, ← hsplit] at hgroup
    · exact hp k m (hls m (by simp))
  · obtain ⟨k, _, hpasses⟩ := passes_skipping c ho hls hp
    exact ⟨ls, [], _, (List.append_nil ls).symm, .inr ⟨rfl, ho.not_balanced hl⟩, hpasses,
      .inr ⟨rfl, k, rfl⟩⟩

theorem feed_settled (c : Config) (hl : l.token = .endOfInput) : c.settled.feed l = c.feed l := by
  cases hc : c.phase with
  | skipping n =>
    simp only [settled, feed, hc, skip, hl]
    rfl
  | _ => rw [settled_eq (by simp [hc])]

theorem Runs.settled {stop : Nat} {v : Float} {events : List Event} {rest : List Lexeme}
    (h : c.Runs stop [] v events rest) : c.settled.Runs stop [] v events rest := by
  cases h with
  | finished hf =>
    apply Runs.finished
    rw [← feed_eq_finished_iff, feed_settled c rfl, feed_eq_finished_iff]
    exact hf
  | consumed hc hruns =>
    refine .consumed ?_ hruns
    rw [← feed_eq_consumed_iff, feed_settled c rfl, feed_eq_consumed_iff]
    exact hc

end Config

structure PassesGroup (f : Evaluator) (c : Config) (passed : List Lexeme) (g : Evaluator)
    (d : Config) : Prop where
  lexemes_eq : f.lexemes = passed ++ g.lexemes
  passedOver : PassedOver passed f.lexemes
  proceeds : Proceeds (Nonterminal.factor.Busy c) f c g d
  returns : Nonterminal.factor.Returns c 0 d g.current
  supplies : d.Supplies g.current 0 []
  depth_eq : d.depth = c.depth
  trace_eq : g.trace.toList =
    f.trace.toList ++ .reported (.nestingTooDeep maxDepth f.current.start) ::
      (f.lexemes.tail.take passed.length).map Event.scanned

/-- An operand is wanted at `c`, and the lexemes `passed` come instead of a zero that is there at
`d`, or that comes at the end when `rest` is empty. -/
structure Config.Skips (c : Config) (r : Diagnostic) (passed rest : List Lexeme) (d : Config) :
    Prop where
  operand : c.phase = .operand
  passes : c.Passes (Nonterminal.factor.Busy c) passed [.reported r] d
  cases_eq : d = { c with phase := .complete 0 } ∨
    rest = [] ∧ ∃ m, d = { c with phase := .skipping m }

namespace Config

variable {c d : Config} {r : Diagnostic} {passed rest : List Lexeme}

theorem Skips.supplies (h : c.Skips r passed rest d) (stop : Nat) :
    d.Supplies (lookahead stop rest) 0 [] := by
  rcases h.cases_eq with rfl | ⟨rfl, m, rfl⟩
  · exact .complete rfl
  · exact .skipped rfl rfl

theorem Skips.returns (h : c.Skips r passed rest d) (stop : Nat) :
    Nonterminal.factor.Returns c 0 d (lookahead stop rest) := by
  refine ⟨0, [], h.supplies stop, ?_, fun _ _ => rfl⟩
  rcases h.cases_eq with rfl | ⟨_, m, rfl⟩ <;> rfl

theorem Skips.runs {stop : Nat} {v : Float} {events : List Event} {last : List Lexeme}
    (h : c.Skips r passed rest d) (hruns : d.Runs stop rest v events last) :
    Runs stop { c with phase := .complete 0 } rest v events last := by
  rcases h.cases_eq with rfl | ⟨rfl, m, rfl⟩
  · exact hruns
  · exact hruns.settled

end Config

theorem Nonterminal.busy_of_not_supplies {n : Nonterminal} {c d : Config} {l : Lexeme}
    (h : ∀ v events, ¬ d.Supplies l v events) : n.Busy c d l := by
  rintro value ⟨v, events, hs, _⟩
  exact h v events hs

theorem Config.Blocks.busy {c : Config} {l : Lexeme} (h : c.Blocks l) (n : Nonterminal) :
    n.Busy c c l := by
  obtain ⟨hc, hl, _⟩ := h
  apply Nonterminal.busy_of_not_supplies
  intro v events hs
  cases hs <;> simp_all

theorem Config.busy_skipping (n : Nonterminal) (c : Config) (k : Nat) {l : Lexeme}
    (hl : l.isEnd = false) : n.Busy c { c with phase := .skipping k } l := by
  apply Nonterminal.busy_of_not_supplies
  intro v events hs
  cases hs with
  | skipped _ ht => exact Lexeme.token_ne_endOfInput hl ht
  | _ => simp_all

theorem Config.Blocks.passesGroup {f : Evaluator} {c : Config} {t : Tokenizer}
    (h : c.Blocks f.current) (hf : f.Pulled t) :
    ∃ passed g d, PassesGroup f c passed g d ∧
      c.Skips (.nestingTooDeep maxDepth f.current.start) passed g.lexemes d := by
  have hconsumes := Consumes.tooDeep h.1 h.2.1 h.2.2
  have htoken : (lookahead t.finish t.lexemes).token ≠ .endOfInput := by
    rw [← hf.current_eq, h.2.1]
    simp
  obtain ⟨l, ls, hls⟩ := exists_cons_of_lookahead htoken
  have hl := hf.current_of_cons hls
  have hnext : t.next.2.lexemes = ls := by
    rw [t.next_lexemes, hls]
    rfl
  have hend : ∀ m ∈ ls, m.isEnd = false := by
    rw [← hnext]
    exact fun m hm => Tokenizer.mem_lexemes_isEnd hm
  obtain ⟨inside, rest, d, hsplit, hover, hpasses, hd⟩ :=
    h.passes hend fun k m hm => busy_skipping .factor c k hm
  obtain ⟨g, u, hg, hu, hrest, htrace⟩ :=
    (hf.record [.reported (.nestingTooDeep maxDepth f.current.start)]).advance.proceeds hpasses
      (hnext.trans hsplit)
  have hskips : c.Skips (.nestingTooDeep maxDepth f.current.start) (f.current :: inside) rest d :=
    ⟨h.1, .cons (h.busy _) hconsumes hpasses, hd⟩
  have hlexemes : f.lexemes = f.current :: ls := by
    rw [hf.lexemes_eq, hls, hl]
  rw [← hu.lexemes_eq] at hrest
  subst rest
  have hreturns := hskips.returns u.finish
  have hsupplies := hskips.supplies u.finish
  rw [hu.lexemes_eq, ← hu.current_eq] at hreturns hsupplies
  exact ⟨_, g, d,
    { lexemes_eq := by rw [hlexemes, hsplit, List.cons_append]
      passedOver := by rwa [hlexemes]
      proceeds := hg.head (h.busy _) hconsumes.feed_eq
      returns := hreturns
      supplies := hsupplies
      depth_eq := hreturns.groups_eq.2
      trace_eq := by
        rw [htrace, (hf.record _).advance_trace, Evaluator.record_trace, ← hf.lexemes_eq,
          List.length_cons, List.append_assoc, List.singleton_append] }, hskips⟩

structure SameBut (report : Diagnostic) (R : Nat → Nat → Prop) (e f e' : Evaluator) : Prop where
  value_eq : e.parse.1 = e'.parse.1
  lookahead : e.parse.2.current.Corresponds R e'.parse.2.current
  diagnostics : ∃ earlier later earlier' later',
    f.diagnostics = e.diagnostics ++ earlier ∧
    e.parse.2.diagnostics = f.diagnostics ++ report :: later ∧
    e'.parse.2.diagnostics = e'.diagnostics ++ earlier' ++ later' ∧
    List.Forall₂ (Diagnostic.Corresponds R) earlier earlier' ∧
    List.Forall₂ (Diagnostic.Corresponds R) later later'

section replaced

variable {c d : Config} {p : Config → Lexeme → Prop} {R : Nat → Nat → Prop} {r : Diagnostic}
  {events : List Event} {before passed rest before' rest' : List Lexeme} {zero : Lexeme}

theorem Config.Skips.replaced {stop stop' : Nat} {v v' : Float} {all all' : List Event}
    {last last' : List Lexeme} (hskips : c.Skips r passed rest d)
    (hpasses : Config.initial.Passes p before events c)
    (hbefore : List.Forall₂ (Lexeme.Corresponds R) before before')
    (hrest : List.Forall₂ (Lexeme.Corresponds R) rest rest') (hstop : R stop stop')
    (hzero : zero.token = .number 0)
    (h : Config.initial.Runs stop (before ++ (passed ++ rest)) v all last)
    (h' : Config.initial.Runs stop' (before' ++ zero :: rest') v' all' last') :
    v = v' ∧ List.Forall₂ (Lexeme.Corresponds R) last last' ∧
      ∃ later earlier' later', reports all = reports events ++ r :: later ∧
        reports all' = earlier' ++ later' ∧
        List.Forall₂ (Diagnostic.Corresponds R) (reports events) earlier' ∧
        List.Forall₂ (Diagnostic.Corresponds R) later later' := by
  obtain ⟨late, hlate, hall⟩ := h.of_passes hpasses
  obtain ⟨later, hlater, hreports⟩ := hlate.of_passes hskips.passes
  obtain ⟨events', c', hpasses', hcc', hr⟩ :=
    hpasses.corresponds Config.corresponds_initial hbefore
  have hnumber := Consumes.number (hcc'.phase_eq ▸ hskips.operand) hzero
  obtain ⟨late', hlate', hall'⟩ := h'.of_passes hpasses'
  have hmet : Passes (fun _ _ => True) c' [zero] [] _ := .single trivial hnumber
  obtain ⟨later', hlater', hreports'⟩ := hlate'.of_passes hmet
  have hcc : Config.Corresponds R { c with phase := .complete 0 }
      { c' with phase := .complete 0 } :=
    ⟨hcc'.groups, hcc'.depth_eq, hcc'.level_eq, rfl⟩
  obtain ⟨other, final, hother, hfinal, hr'⟩ := (hskips.runs hlater).corresponds hcc hrest hstop
  obtain ⟨rfl, rfl, rfl⟩ := hlater'.unique hother
  refine ⟨rfl, hfinal, reports later, reports events', reports later', ?_, ?_, hr, hr'⟩
  · rw [hall, hreports]
    rfl
  · rw [hall', hreports']
    rfl

theorem Config.Skips.sameBut {e f e' : Evaluator} {t t' : Tokenizer}
    (hskips : c.Skips r passed rest d) (hpasses : Config.initial.Passes p before events c)
    (hbefore : List.Forall₂ (Lexeme.Corresponds R) before before')
    (hrest : List.Forall₂ (Lexeme.Corresponds R) rest rest') (hstop : R t.finish t'.finish)
    (hzero : zero.token = .number 0) (he : e.Ready t) (he' : e'.Ready t')
    (hls : t.lexemes = before ++ (passed ++ rest)) (hls' : t'.lexemes = before' ++ zero :: rest')
    (hf : f.diagnostics = e.diagnostics ++ reports events) : SameBut r R e f e' := by
  obtain ⟨all, last, hruns, hcurrent, hdiagnostics⟩ := he.parse_runs
  obtain ⟨all', last', hruns', hcurrent', hdiagnostics'⟩ := he'.parse_runs
  rw [hls] at hruns
  rw [hls'] at hruns'
  obtain ⟨hvalue, hlast, later, earlier', later', hr, hr', hearly, hlate⟩ :=
    hskips.replaced hpasses hbefore hrest hstop hzero hruns hruns'
  have hlook := lookahead_corresponds hlast hstop
  refine ⟨hvalue, hcurrent ▸ hcurrent' ▸ hlook, reports events, _, earlier', _, hf, ?_, ?_, hearly,
    List.rel_append hlate (trailing_corresponds hlook)⟩
  · rw [hdiagnostics, hr, hf]
    simp
  · rw [hdiagnostics', hr']
    simp

theorem beside_of_replaced {stop stop' : Nat} {ls' : List Lexeme}
    (h : ls'.map Lexeme.token = before.map Lexeme.token ++ .number 0 :: rest.map Lexeme.token) :
    ∃ before' zero rest', ls' = before' ++ zero :: rest' ∧ zero.token = .number 0 ∧
      let R := Beside stop stop' (before ++ rest) (ls'.eraseIdx before.length)
      List.Forall₂ (Lexeme.Corresponds R) before before' ∧
        List.Forall₂ (Lexeme.Corresponds R) rest rest' ∧ R stop stop' := by
  obtain ⟨before', behind, rfl, hbefore, hbehind⟩ := List.map_eq_append_iff.mp h
  obtain ⟨zero, rest', rfl, hzero, hrest⟩ := List.map_eq_cons_iff.mp hbehind
  have hlength : before'.length = before.length := by
    simpa using congrArg List.length hbefore
  have herase : (before' ++ zero :: rest').eraseIdx before.length = before' ++ rest' := by
    rw [List.eraseIdx_append_of_length_le (Nat.le_of_eq hlength), hlength, Nat.sub_self]
    rfl
  have htokens : (before ++ rest).map Lexeme.token = (before' ++ rest').map Lexeme.token := by
    rw [List.map_append, List.map_append, hbefore, hrest]
  rw [herase]
  obtain ⟨hls, hstop⟩ := @beside_of_tokens_eq stop stop' _ _ htokens
  have hfirst := List.forall₂_take_append _ _ _ hls
  have hlater := List.forall₂_drop_append _ _ _ hls
  rw [hlength, List.take_left] at hfirst
  rw [hlength, List.drop_left] at hlater
  exact ⟨before', zero, rest', rfl, hzero, hfirst, hlater, hstop⟩

theorem exists_replaced (h : ∀ l ∈ before ++ rest, ∃ text, l.token.Spelt text) :
    ∃ source, (history source 0 []).lexemes.map Lexeme.token =
      before.map Lexeme.token ++ .number 0 :: rest.map Lexeme.token := by
  have hspelt : ∀ t ∈ before.map Lexeme.token ++ .number 0 :: rest.map Lexeme.token,
      ∃ text, t.Spelt text := by
    intro t ht
    rw [List.mem_append, List.mem_cons, List.mem_map, List.mem_map] at ht
    rcases ht with ⟨l, hl, rfl⟩ | rfl | ⟨l, hl, rfl⟩
    · exact h l (List.mem_append_left _ hl)
    · exact ⟨_, Token.spelt_zero⟩
    · exact h l (List.mem_append_right _ hl)
  obtain ⟨source, hsource⟩ := exists_tokensOf hspelt
  have hlexemes := (Evaluator.pulled_ofString source).lexemes_eq
  refine ⟨source, ?_⟩
  rw [← hsource]
  exact congrArg _ hlexemes

end replaced

/-- The evaluation of `e` comes to a call for a factor at `f` and `c` that passes over a group. With
a zero instead of the group it goes on as it does, and it does not report the group. -/
def PassesAsZero (source : String) (e f : Evaluator) (c : Config) : Prop :=
  ∃ before passed g d, e.lexemes = before ++ f.lexemes ∧ PassesGroup f c passed g d ∧
    let edited := before.map Lexeme.token ++ .number 0 :: g.lexemes.map Lexeme.token
    (∃ source', (history source' 0 []).lexemes.map Lexeme.token = edited) ∧
    ∀ source' pulls ops, let e' := history source' pulls ops
      e'.lexemes.map Lexeme.token = edited →
        SameBut (.nestingTooDeep maxDepth f.current.start)
          (Beside source.utf8ByteSize source'.utf8ByteSize (before ++ g.lexemes)
            (e'.lexemes.eraseIdx before.length)) e f e'

theorem Config.passes_opening {c : Config} {ls : List Lexeme} (hc : c.phase = .operand)
    (hls : ∀ l ∈ ls, l.token = .leftParen) (hd : c.depth + ls.length ≤ maxDepth) :
    ∃ d, c.Passes (fun _ _ => True) ls [] d ∧ d.phase = .operand ∧
      d.depth = c.depth + ls.length := by
  induction ls generalizing c with
  | nil => exact ⟨c, .nil, hc, rfl⟩
  | cons l ls ih =>
    obtain ⟨hl, hls⟩ := List.forall_mem_cons.mp hls
    rw [List.length_cons] at hd ⊢
    have hlt : c.depth < maxDepth := by omega
    obtain ⟨d, hpasses, hphase, hdepth⟩ :=
      ih (c := ⟨⟨l.start, c.level⟩ :: c.groups, c.depth + 1, .fresh, .operand⟩) rfl hls
        (by simp only; omega)
    refine ⟨d, .cons trivial (.opening hc hl hlt) hpasses, hphase, ?_⟩
    rw [hdepth, Nat.add_assoc, Nat.add_comm 1]

theorem exists_reaches_maxDepth {source : String} {ts : List Token}
    (h : tokensOf source = List.replicate (maxDepth + 1) .leftParen ++ ts) :
    ∃ f c, Reaches (history source 0 []) .initial f c ∧ c.phase = .operand ∧
      f.current.token = .leftParen ∧ c.depth = maxDepth := by
  rw [List.replicate_succ', List.append_assoc] at h
  obtain ⟨outer, rest, hsplit, houter, hrest⟩ := List.map_eq_append_iff.mp h
  obtain ⟨l, rest, rfl, hl, _⟩ := List.map_eq_cons_iff.mp hrest
  rw [List.eq_replicate_iff, List.length_map] at houter
  obtain ⟨hlength, houter⟩ := houter
  have hle : Config.initial.depth + outer.length ≤ maxDepth := by
    rw [hlength]
    exact Nat.le_of_eq (Nat.zero_add _)
  obtain ⟨d, hpasses, hphase, hdepth⟩ :=
    Config.passes_opening rfl (fun m hm => houter _ (List.mem_map_of_mem hm)) hle
  obtain ⟨f, u, hf, hu, hbehind, _⟩ :=
    (Evaluator.pulled_ofString source).proceeds hpasses hsplit
  refine ⟨f, d, hf, hphase, ?_, ?_⟩
  · rw [hu.current_of_cons hbehind, hl]
  · rw [hdepth, hlength]
    exact Nat.zero_add _

theorem tokensOf_replicate_opening (n : Nat) :
    tokensOf (String.ofList (List.replicate n '(')) = List.replicate n .leftParen := by
  induction n with
  | zero => decide +kernel
  | succ n ih =>
    have hone : tokensOf "(" = [.leftParen] := by decide +kernel
    have hjoined : ¬ Joined "(".toList (String.ofList (List.replicate n '(')).toList := by
      rintro ⟨hlast, _⟩
      simp at hlast
    have happend := tokensOf_append hjoined
    rw [ih, hone] at happend
    rw [List.replicate_succ, ← List.singleton_append, String.ofList_append]
    exact happend

theorem deep_group_passed_as_zero (source : String) (pulls : Nat) (ops : List Operation)
    (f : Evaluator) (c : Config) (hreach : Reaches (history source pulls ops) .initial f c)
    (hoperand : c.phase = .operand) (hopening : f.current.token = .leftParen)
    (hdepth : c.depth = maxDepth) : PassesAsZero source (history source pulls ops) f c := by
  have hblocks : c.Blocks f.current := ⟨hoperand, hopening, Nat.le_of_eq hdepth.symm⟩
  obtain ⟨n, hn⟩ := history_ready source pulls ops
  obtain ⟨u, hu, hpassed⟩ := hreach.passes hn.pulled
  have hend : f.current.isEnd = false := by
    simp [Lexeme.isEnd, Token.isEnd, hopening]
  obtain ⟨before, events, hbefore, hpasses, hdiagnostics⟩ := hpassed hend
  obtain ⟨passed, g, d, hgroup, hskips⟩ := hblocks.passesGroup hu
  have hlexemes := hgroup.lexemes_eq
  rw [hu.lexemes_eq] at hlexemes
  rw [hlexemes] at hbefore
  have hsource : ∀ l ∈ before ++ (passed ++ g.lexemes), l ∈ lexemesOf source := by
    rw [← hbefore, Tokenizer.after_lexemes]
    exact fun l hl => List.mem_of_mem_drop hl
  refine ⟨before, passed, g, d, ?_, hgroup, ?_, fun source' pulls' ops' => ?_⟩
  · rw [hn.pulled.lexemes_eq, hgroup.lexemes_eq, hbefore]
  · refine exists_replaced fun l hl => exists_spelt (hsource l ?_)
    rcases List.mem_append.mp hl with hl | hl <;> simp [hl]
  · intro e' hedited
    obtain ⟨n', hn'⟩ := history_ready source' pulls' ops'
    rw [hn'.pulled.lexemes_eq] at hedited ⊢
    obtain ⟨before', zero, rest', hls', hzero, hfirst, hrest, hstop⟩ :=
      @beside_of_replaced before g.lexemes source.utf8ByteSize source'.utf8ByteSize _ hedited
    refine hskips.sameBut hpasses hfirst hrest ?_ hzero hn hn' hbefore hls' hdiagnostics
    rwa [Tokenizer.after_finish, Tokenizer.after_finish, Tokenizer.finish_ofString,
      Tokenizer.finish_ofString]

theorem passesAsZero_in_open_groups :
    let source := String.ofList (List.replicate (maxDepth + 1) '(') ++ "@ 2 * ) 7"
    ∃ f c, Reaches (history source 0 []) .initial f c ∧ c.phase = .operand ∧
      f.current.token = .leftParen ∧ c.depth = maxDepth ∧
      PassesAsZero source (history source 0 []) f c := by
  intro source
  have hjoined : ¬ Joined (String.ofList (List.replicate (maxDepth + 1) '(')).toList
      "@ 2 * ) 7".toList := by
    rintro ⟨_, hfirst⟩
    simp at hfirst
  have htokens := tokensOf_append hjoined
  rw [tokensOf_replicate_opening] at htokens
  obtain ⟨f, c, hreach, hphase, htoken, hdepth⟩ := exists_reaches_maxDepth htokens
  exact ⟨f, c, hreach, hphase, htoken, hdepth,
    deep_group_passed_as_zero source 0 [] f c hreach hphase htoken hdepth⟩

end Calculator
