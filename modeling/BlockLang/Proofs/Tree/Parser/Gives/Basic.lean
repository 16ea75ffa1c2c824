import BlockLang.Tree.Parser.Expr
import BlockLang.Proofs.Except

/-!
What a parser reads and what it leaves, without the proof that it leaves less.
-/

namespace BlockLang

namespace Parser

-- What has been read, and what is left.
class Reading (τ : Type) (α : outParam Type) where
  value : τ → α
  rest : τ → List Lexeme

variable {α β τ σ : Type} {s r q : List Lexeme} {a : α} {b : β}

instance : Reading (After s α) α := ⟨After.value, After.rest⟩

instance : Reading (Upto s α) α := ⟨Upto.value, Upto.rest⟩

open Reading Reads

-- Something is read, and some lexemes are left.
def Gives [Reading τ α] (x : Result τ) (a : α) (r : List Lexeme) : Prop :=
  ∃ y, x = .ok y ∧ value y = a ∧ rest y = r

namespace Gives

section Results

variable [Reading τ α] [Reading σ β] {x : Result τ}

theorem ok {y : τ} (hv : value y = a) (hr : rest y = r) : Gives (.ok y : Result τ) a r :=
  ⟨y, rfl, hv, hr⟩

-- Something is read before something else.
theorem bind {x : Result (After s α)} {f : After s α → Result σ} (h : Gives x a q)
    (hf : ∀ hl, Gives (f ⟨a, q, hl⟩) b r) : Gives (x >>= f) b r := by
  have ⟨⟨_, _, hl⟩, hx, hv, hr⟩ := h
  cases hv
  cases hr
  exact hx ▸ hf hl

-- What has been read is turned into something else.
theorem map {f : τ → σ} (h : Gives x a r) (hv : ∀ y, value y = a → value (f y) = b)
    (hr : ∀ y, rest (f y) = rest y) : Gives (x.map f) b r := by
  have ⟨y, hx, hy, he⟩ := h
  exact hx ▸ ok (hv y hy) ((hr y).trans he)

theorem last {f : τ → σ} (h : Gives x a r) (hv : ∀ y, value y = a → value (f y) = b)
    (hr : ∀ y, rest (f y) = rest y) : Gives (x >>= fun y => pure (f y)) b r :=
  h.map hv hr

theorem same {γ : Type} [Reading γ α] {f : τ → γ} (h : Gives x a r)
    (hv : ∀ y, value (f y) = value y) (hr : ∀ y, rest (f y) = rest y) :
    Gives (x >>= fun y => pure (f y)) a r :=
  h.map (fun y hy => (hv y).trans hy) hr

end Results

section Steps

variable {read : Reads α} {next : α → Reads β}

theorem andThen (h : Gives (read s) a q) (h' : Gives (next a q) b r) :
    Gives ((read >>= next) s) b r := by
  have ⟨⟨_, _, hl⟩, hs, rfl, rfl⟩ := h
  have ⟨y, hn, hv, hr⟩ := h'
  have he : Reads.andThen read next s = .ok (y.within hl) := by
    simp only [Reads.andThen, hs]
    exact map_eq_ok.mpr ⟨y, hn, rfl⟩
  exact ⟨_, he, hv, hr⟩

theorem pure : Gives ((Pure.pure a : Reads α) s) a s :=
  ok rfl rfl

theorem upcoming : Gives (Reads.upcoming s) s s :=
  ok rfl rfl

theorem ofAfter {read : (s : List Lexeme) → Result (After s α)} (h : Gives (read s) a r) :
    Gives (Reads.ofAfter read s) a r :=
  h.map (fun _ hv => hv) fun _ => rfl

end Steps

end Gives

theorem gives_andThen {read : Reads α} {next : α → Reads β} :
    Gives ((read >>= next) s) b r ↔ ∃ a q, Gives (read s) a q ∧ Gives (next a q) b r := by
  refine ⟨fun h => ?_, fun ⟨_, _, h, h'⟩ => h.andThen h'⟩
  obtain ⟨x, hx, rfl, rfl⟩ := h
  change Reads.andThen read next s = .ok x at hx
  unfold Reads.andThen at hx
  split at hx
  case h_1 => contradiction
  case h_2 a q _ hr =>
    have ⟨y, hy, he⟩ := map_eq_ok.mp hx
    exact ⟨a, q, ⟨_, hr, rfl, rfl⟩, ⟨y, hy, congrArg Upto.value he, congrArg Upto.rest he⟩⟩

theorem gives_pure {c : α} : Gives ((Pure.pure a : Reads α) s) c r ↔ a = c ∧ s = r := by
  refine ⟨fun ⟨_, hy, hv, hr⟩ => ?_, fun ⟨ha, hs⟩ => ha ▸ hs ▸ .pure⟩
  obtain rfl := Except.ok.inj hy
  exact ⟨hv, hr⟩

theorem gives_ofAfter {read : (s : List Lexeme) → Result (After s α)} :
    Gives (Reads.ofAfter read s) a r ↔ Gives (read s) a r := by
  refine ⟨fun ⟨_, hx, hv, hr⟩ => ?_, .ofAfter⟩
  obtain ⟨y, hy, rfl⟩ := map_eq_ok.mp hx
  exact ⟨y, hy, hv, hr⟩

variable {stop : Token} {l : Lexeme} {p : Token → Bool} {what : String} {kind : TokenKind}

@[simp]
theorem current_cons : current stop (l :: s) = l.token :=
  rfl

theorem gives_expect (hl : p l.token) : Gives (expect stop p what (l :: s)) l s := by
  simp only [expect, hl, if_true]
  exact .ok rfl rfl

theorem gives_expectKind (hl : l.token.kind = kind) :
    Gives (expectKind stop kind what (l :: s)) l s :=
  gives_expect (decide_eq_true hl)

theorem gives_skip (hl : p l.token) : Gives (skip stop p what (l :: s)) () s :=
  (gives_expect hl).map (fun _ _ => rfl) fun _ => rfl

theorem gives_string (hl : l.token.kind = .string) :
    Gives (string stop what (l :: s)) l.token s :=
  (gives_expectKind hl).map (fun _ hv => congrArg Lexeme.token hv) fun _ => rfl

theorem gives_name (hl : l.token.kind = .ident) :
    Gives (name stop what (l :: s)) ⟨l.token.text, l.token.span⟩ s := by
  apply (gives_expectKind hl).map
  · exact fun _ hv => congrArg (fun l : Lexeme => Name.mk l.token.text l.token.span) hv
  · exact fun _ => rfl

end Parser

end BlockLang
