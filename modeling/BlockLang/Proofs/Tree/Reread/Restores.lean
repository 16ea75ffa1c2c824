import BlockLang.Proofs.Tree.Parser.Gives.Basic
import BlockLang.Proofs.Tree.Printed

/-!
What is read from the lexemes of given tokens.
-/

namespace BlockLang

-- A token without comments.
def Token.lexeme (t : Token) : Lexeme :=
  ⟨t, none, none⟩

namespace Parser

open Token

-- Lexemes are those of some tokens, wherever they are.
def Spells (s : List Lexeme) (ts : List Token) : Prop :=
  s.map (·.token.bare) = ts

-- There are no comments at any of the lexemes.
def Uncommented (s : List Lexeme) : Prop :=
  ∀ l ∈ s, l.leading = none ∧ l.trailing = none

section Spells

variable {s : List Lexeme} {ts us : List Token} {t : Token} {n : Name}

theorem spells_nil : Spells s [] ↔ s = [] :=
  List.map_eq_nil_iff

theorem spells_cons : Spells s (t :: ts) ↔ ∃ l r, s = l :: r ∧ l.token.bare = t ∧ Spells r ts :=
  List.map_eq_cons_iff

theorem spells_singleton : Spells s [t] ↔ ∃ l, s = [l] ∧ l.token.bare = t :=
  List.map_eq_singleton_iff

theorem spells_append : Spells s (ts ++ us) ↔ ∃ r q, s = r ++ q ∧ Spells r ts ∧ Spells q us :=
  List.map_eq_append_iff

theorem name_bare (h : t.bare = n.token) : (Name.mk t.text t.span).bare = n.bare := by
  have ht : t.bare.text = n.token.text := congrArg Token.text h
  exact congrArg (fun x => Name.mk x .none) ht

end Spells

variable {α β : Type} {stop t : Token} {ts us : List Token} {C C' : Token → Prop}

-- From lexemes of some tokens something is read that satisfies `Q`, and no more than these lexemes
-- are, if the token after them satisfies `C`.
def Reads.Restores (stop : Token) (C : Token → Prop) (ts : List Token) (Q : α → Prop)
    (read : Reads α) : Prop :=
  ∀ s rest, Spells s ts → Uncommented s → C (current stop rest).bare →
    ∃ a, Q a ∧ Gives (read (s ++ rest)) a rest

namespace Reads.Restores

variable {Q : α → Prop} {Q' : β → Prop} {read read' : Reads α} {next : α → Reads β}

theorem always (h : read.Restores stop (fun _ => True) ts Q) : read.Restores stop C ts Q :=
  fun s rest hs hu _ => h s rest hs hu trivial

theorem pure {a : α} (h : Q a) : (Pure.pure a : Reads α).Restores stop C [] Q := by
  intro s rest hs _ _
  obtain rfl := spells_nil.mp hs
  exact ⟨a, h, .pure⟩

theorem last (h : read.Restores stop C ts Q) {f : α → β} (hf : ∀ a, Q a → Q' (f a)) :
    (read >>= fun a => Pure.pure (f a)).Restores stop C ts Q' := by
  intro s rest hs hu hc
  have ⟨a, ha, hs⟩ := h s rest hs hu hc
  exact ⟨f a, hf a ha, hs.andThen .pure⟩

-- What is written next has to satisfy what is asked of the token after.
theorem andThen (h : read.Restores stop C ts Q)
    (hc : ∀ s rest, Spells s us → C' (current stop rest).bare → C (current stop (s ++ rest)).bare)
    (h' : ∀ a, Q a → (next a).Restores stop C' us Q') :
    (read >>= next).Restores stop C' (ts ++ us) Q' := by
  intro s rest hs hu hr
  obtain ⟨s, s', rfl, hs, hs'⟩ := spells_append.mp hs
  have ⟨hu, hu'⟩ := List.forall_mem_append.mp hu
  have ⟨a, ha, hs⟩ := h s (s' ++ rest) hs hu (hc s' rest hs' hr)
  have ⟨b, hb, hs'⟩ := h' a ha s' rest hs' hu' hr
  rw [List.append_assoc]
  exact ⟨b, hb, hs.andThen hs'⟩

theorem bind (h : read.Restores stop (fun _ => True) ts Q)
    (h' : ∀ a, Q a → (next a).Restores stop C us Q') :
    (read >>= next).Restores stop C (ts ++ us) Q' :=
  h.andThen (fun _ _ _ _ => trivial) h'

theorem before (h : read.Restores stop C ts Q) (ht : us.head? = some t) (hc : C t)
    (h' : ∀ a, Q a → (next a).Restores stop C' us Q') :
    (read >>= next).Restores stop C' (ts ++ us) Q' := by
  apply h.andThen _ h'
  intro s rest hs _
  obtain ⟨us, rfl⟩ := List.head?_eq_some_iff.mp ht
  obtain ⟨l, _, rfl, hl, _⟩ := spells_cons.mp hs
  exact hl ▸ hc

theorem upcoming {next : List Lexeme → Reads α} (ht : ts.head? = some t)
    (h : ∀ s, (current stop s).bare = t → (next s).Restores stop C ts Q) :
    (Reads.upcoming >>= next).Restores stop C ts Q := by
  intro s rest hs hu hr
  obtain ⟨us, rfl⟩ := List.head?_eq_some_iff.mp ht
  have ht : (current stop (s ++ rest)).bare = t := by
    obtain ⟨l, _, rfl, hl, _⟩ := spells_cons.mp hs
    exact hl
  have ⟨a, ha, hs⟩ := h _ ht s rest hs hu hr
  exact ⟨a, ha, Gives.upcoming.andThen hs⟩

theorem ite_pos {c : Prop} [Decidable c] (hc : c) (h : read.Restores stop C ts Q) :
    (if c then read else read').Restores stop C ts Q := by
  rwa [if_pos hc]

theorem ite_neg {c : Prop} [Decidable c] (hc : ¬c) (h : read'.Restores stop C ts Q) :
    (if c then read else read').Restores stop C ts Q := by
  rwa [if_neg hc]

-- One lexeme is read.
theorem one
    (h : ∀ l s, l.token.bare = t → l.trailing = none → ∃ a, Q a ∧ Gives (read (l :: s)) a s) :
    read.Restores stop C [t] Q := by
  intro s rest hs hu _
  obtain ⟨l, rfl, hl⟩ := spells_singleton.mp hs
  exact h l rest hl (hu l (List.mem_singleton_self l)).2

-- What is read after one lexeme depends on it, and maybe on what comes next.
theorem cons {next : Lexeme → Reads α} (h : ∀ l, l.token.bare = t → (next l).Restores stop C ts Q)
    (hr : ∀ l s a r, l.token.bare = t → (∀ u ∈ ts.head?, (current stop s).bare = u) →
      Gives (next l s) a r → Gives (read (l :: s)) a r) : read.Restores stop C (t :: ts) Q := by
  intro s rest hs hu hc
  obtain ⟨l, s, rfl, hl, hs⟩ := spells_cons.mp hs
  have ⟨a, ha, hg⟩ := h l hl s rest hs (List.forall_mem_cons.mp hu).2 hc
  refine ⟨a, ha, hr l _ a rest hl (fun u hu => ?_) hg⟩
  obtain ⟨us, rfl⟩ := List.head?_eq_some_iff.mp hu
  obtain ⟨m, _, rfl, hm, _⟩ := spells_cons.mp hs
  exact hm

-- What is read after one lexeme becomes part of something else.
theorem after {read : Reads α} {read' : Reads β} {f : Lexeme → α → β}
    (h : read.Restores stop C ts Q) (hf : ∀ l a, Q a → Q' (f l a))
    (hr : ∀ l s a r, l.token.bare = t → Gives (read s) a r → Gives (read' (l :: s)) (f l a) r) :
    read'.Restores stop C (t :: ts) Q' := by
  intro s rest hs hu hc
  obtain ⟨l, s, rfl, hl, hs⟩ := spells_cons.mp hs
  have ⟨a, ha, hg⟩ := h s rest hs (List.forall_mem_cons.mp hu).2 hc
  exact ⟨f l a, hf l a ha, hr l _ a rest hl hg⟩

-- What is read depends on the first lexeme, which is read again.
theorem of_head (h : read.Restores stop C ts Q) (ht : ts.head? = some t)
    (hr : ∀ l s a r, l.token.bare = t → l.leading = none → Gives (read (l :: s)) a r →
      Gives (read' (l :: s)) a r) : read'.Restores stop C ts Q := by
  intro s rest hs hu hc
  have ⟨a, ha, hg⟩ := h s rest hs hu hc
  obtain ⟨us, rfl⟩ := List.head?_eq_some_iff.mp ht
  obtain ⟨l, _, rfl, hl, _⟩ := spells_cons.mp hs
  exact ⟨a, ha, hr l _ a rest hl (hu l (List.mem_cons_self ..)).1 hg⟩

end Reads.Restores

open Reads

variable {what : String} {n : Name}

theorem startsWith_iff {kind : TokenKind} {s : List Lexeme} (h : (current stop s).bare = t) :
    startsWith stop kind s ↔ t.kind = kind := by
  rw [← h]
  exact decide_eq_true_iff

theorem restores_skip {p : Token → Bool} (hp : ∀ u : Token, u.bare = t → p u) :
    (skip stop p what).Restores stop C [t] fun _ => True :=
  .one fun _ _ hl _ => ⟨(), trivial, gives_skip (hp _ hl)⟩

theorem restores_skipKind {kind : TokenKind} {x : String} :
    (skipKind stop kind what).Restores stop C [word kind x] fun _ => True :=
  restores_skip fun _ hu => decide_eq_true (bare_eq_word.mp hu).1

theorem restores_skipOp {x : String} :
    (skip stop (·.isOp x) what).Restores stop C [op x] fun _ => True :=
  restores_skip fun _ hu => by simp [isOp, bare_eq_word.mp hu]

theorem restores_skipKeyword {x : String} :
    (skip stop (·.isKeyword x) what).Restores stop C [keyword x] fun _ => True :=
  restores_skip fun _ hu => by simp [isKeyword, bare_eq_word.mp hu]

theorem restores_string (ht : t.kind = .string) :
    (string stop what).Restores stop C [t.bare] (·.bare = t.bare) :=
  .one fun l _ hl _ => ⟨l.token, hl, gives_string ((bare_eq_bare.mp hl).1.trans ht)⟩

theorem restores_name : (name stop what).Restores stop C [n.token] (·.bare = n.bare) :=
  .one fun _ _ hl _ => ⟨_, name_bare hl, gives_name (bare_eq_word.mp hl).1⟩

end Parser

end BlockLang
