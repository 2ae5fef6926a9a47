import Calculator.Proofs.Acceptance
import Calculator.Proofs.Binary64

namespace Calculator

open Binary64

namespace Literal

theorem le_foldl (cs : List Char) (n : Nat) : n ≤ cs.foldl (fun n c => n * 10 + digit c) n := by
  induction cs generalizing n with
  | nil => exact Nat.le_refl n
  | cons c cs ih =>
    have hnext := ih (n * 10 + digit c)
    rw [List.foldl_cons]
    omega

theorem represents_foldl {cs : List Char} (hcs : ∀ c ∈ cs, c.isDigit = true) {v : Float} {n : Nat}
    (hv : Represents v n) (h : cs.foldl (fun n c => n * 10 + digit c) n ≤ 2 ^ 53) :
    Represents (cs.foldl (fun v c => v * 10 + Float.ofNat (digit c)) v)
      (cs.foldl (fun n c => n * 10 + digit c) n : Nat) := by
  induction cs generalizing v n with
  | nil => exact hv
  | cons c cs ih =>
    rw [List.foldl_cons] at h
    rw [List.foldl_cons, List.foldl_cons]
    have hprefix := (le_foldl cs (n * 10 + digit c)).trans h
    have hdigit := digit_lt (hcs c List.mem_cons_self)
    apply ih (fun d hd => hcs d (List.mem_cons_of_mem c hd)) _ h
    have hten : Represents 10 (10 : Nat) := Represents.ofNat (by norm_num)
    have htens := hv.mul hten (by omega)
    have hsum := htens.add (Represents.ofNat (n := digit c) (by omega)) (by omega)
    rw [Nat.cast_add, Nat.cast_mul]
    exact hsum

theorem represents_value {text : String} (h : whole text ≤ 2 ^ 53) :
    Represents (value text) (whole text) := by
  have hzero : Represents 0 (0 : Nat) := Represents.ofNat (by norm_num)
  refine represents_foldl (fun c hc => ?_) hzero h
  exact (List.mem_filter.mp hc).2

end Literal

theorem number_eq_value {source : String} {l : Lexeme} {v : Float} (hl : l ∈ lexemesOf source)
    (h : l.token = .number v) : v = Literal.value l.text := by
  obtain ⟨_, c, cs, _, _, _, rfl⟩ := Tokenizer.mem_lexemes hl
  rw [Token.ofText] at h
  split at h
  · cases h
    rfl
  · unfold Token.ofChar at h
    split at h <;> cases h

def Operator.whole? : Operator → Int → Int → Option Int
  | add, m, n => some (m + n)
  | sub, m, n => some (m - n)
  | mul, m, n => some (m * n)
  | div, _, _ => none

theorem Operator.represents_apply {op : Operator} (hop : op ≠ div) {x y : Float} {m n : Int}
    (hx : Represents x m) (hy : Represents y n) :
    ∃ k, op.whole? m n = some k ∧ (k.natAbs ≤ 2 ^ 53 → Represents (op.apply x y) k) := by
  cases op with
  | add => exact ⟨m + n, rfl, hx.add hy⟩
  | sub => exact ⟨m - n, rfl, hx.sub hy⟩
  | mul => exact ⟨m * n, rfl, hx.mul hy⟩
  | div => exact absurd rfl hop

namespace Expr

def whole? : Expr → Option Int
  | literal text _ => some (Literal.whole text)
  | binary op e f => do op.whole? (← e.whole?) (← f.whole?)

def parts : Expr → List Expr
  | literal text value => [literal text value]
  | binary op e f => binary op e f :: (e.parts ++ f.parts)

def Within (bound : Nat) (e : Expr) : Prop :=
  ∀ f ∈ e.parts, ∀ n ∈ f.whole?, n.natAbs ≤ bound

instance (bound : Nat) (e : Expr) : Decidable (Within bound e) :=
  inferInstanceAs (Decidable (∀ f ∈ e.parts, ∀ n ∈ f.whole?, n.natAbs ≤ bound))

theorem Within.left {bound : Nat} {op : Operator} {e f : Expr} (h : Within bound (binary op e f)) :
    Within bound e :=
  fun g hg => h g (List.mem_cons_of_mem _ (List.mem_append_left _ hg))

theorem Within.right {bound : Nat} {op : Operator} {e f : Expr} (h : Within bound (binary op e f)) :
    Within bound f :=
  fun g hg => h g (List.mem_cons_of_mem _ (List.mem_append_right _ hg))

theorem Within.natAbs_le {bound : Nat} {e : Expr} {n : Int} (h : Within bound e)
    (hn : e.whole? = some n) : n.natAbs ≤ bound := by
  apply h e _ n hn
  cases e <;> exact List.mem_cons_self

end Expr

theorem Derives.represents {n : Nonterminal} {depth : Nat} {ls : List Lexeme} {e : Expr}
    (h : Derives n depth ls e)
    (hls : ∀ l ∈ ls, l.token ≠ .operator .div ∧
      ∀ v, l.token = .number v → v = Literal.value l.text)
    (hwithin : e.Within (2 ^ 53)) : ∃ k, e.whole? = some k ∧ Represents e.value k := by
  induction h with
  | @number depth l v hl =>
    have hv := (hls l (List.mem_singleton_self l)).2 v hl
    have hwhole : Literal.whole l.text ≤ 2 ^ 53 := hwithin.natAbs_le rfl
    refine ⟨Literal.whole l.text, rfl, ?_⟩
    rw [Expr.value, hv]
    exact Literal.represents_value hwhole
  | group _ _ _ ih => exact ih (fun l hl => hls l (by simp [hl])) hwithin
  | factor _ ih | term _ ih => exact ih hls hwithin
  | @product depth left right l op e f hl hop _ _ ihe ihf
  | @sum depth left right l op e f hl hop _ _ ihe ihf =>
    obtain ⟨m, hm, hleft⟩ := ihe (fun l hl => hls l (by simp [hl])) hwithin.left
    obtain ⟨n, hn, hright⟩ := ihf (fun l hl => hls l (by simp [hl])) hwithin.right
    have hop' : op ≠ .div := by
      rintro rfl
      exact (hls l (by simp)).1 hl
    obtain ⟨k, hk, hrepresents⟩ := op.represents_apply hop' hleft hright
    have hexact : (Expr.binary op e f).whole? = some k := by
      simp [Expr.whole?, hm, hn, hk]
    exact ⟨k, hexact, hrepresents (hwithin.natAbs_le hexact)⟩

theorem evaluate_exact {source : String} {e : Expr}
    (h : Derives .expression maxDepth (lexemesOf source) e)
    (hdiv : ∀ l ∈ lexemesOf source, l.token ≠ .operator .div) (hwithin : e.Within (2 ^ 53)) :
    ∃ n, e.whole? = some n ∧ Represents (evaluate source) n := by
  rw [(parse_of_derives h).2]
  exact h.represents (fun l hl => ⟨hdiv l hl, fun _ => number_eq_value hl⟩) hwithin

theorem evaluate_exact_at_bound :
    ∃ e, Derives .expression maxDepth (lexemesOf "009007199254740986-4+(7-2)*2") e ∧
      e.Within (2 ^ 53) ∧ e.whole? = some (2 ^ 53) ∧
      Represents (evaluate "009007199254740986-4+(7-2)*2") (2 ^ 53) := by
  have hls : lexemesOf "009007199254740986-4+(7-2)*2" =
      [⟨.number (Literal.value "009007199254740986"), 0, "009007199254740986"⟩,
        ⟨.operator .sub, 18, "-"⟩, ⟨.number (Literal.value "4"), 19, "4"⟩,
        ⟨.operator .add, 20, "+"⟩, ⟨.leftParen, 21, "("⟩, ⟨.number (Literal.value "7"), 22, "7"⟩,
        ⟨.operator .sub, 23, "-"⟩, ⟨.number (Literal.value "2"), 24, "2"⟩,
        ⟨.rightParen, 25, ")"⟩, ⟨.operator .mul, 26, "*"⟩,
        ⟨.number (Literal.value "2"), 27, "2"⟩] := by
    decide +kernel
  obtain ⟨e, he, hwithin, hwhole⟩ : ∃ e,
      Derives .expression maxDepth (lexemesOf "009007199254740986-4+(7-2)*2") e ∧
        e.Within (2 ^ 53) ∧ e.whole? = some (2 ^ 53) := by
    rw [hls]
    refine ⟨_, .sum rfl (.inl rfl)
      (.sum rfl (.inr rfl) (.term (.factor (.number rfl))) (.factor (.number rfl)))
      (.product rfl (.inl rfl)
        (.factor (.group rfl rfl
          (.sum rfl (.inr rfl) (.term (.factor (.number rfl))) (.factor (.number rfl)))))
        (.number rfl)), ?_, ?_⟩
    · decide +kernel
    · decide +kernel
  obtain ⟨n, hn, h⟩ := evaluate_exact he (by rw [hls]; decide) hwithin
  rw [hwhole] at hn
  cases hn
  exact ⟨e, he, hwithin, hwhole, h⟩

end Calculator
