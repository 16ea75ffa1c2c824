import BlockLang.Proofs.Sprite.Fill

/-!
What chains of choices do. Their conditions are asked one after the other, until one answers yes.
The stack of that branch runs then, and that of no other one.
-/

namespace BlockLang

-- What it does to a state to ask a condition, which answers yes or no, and to run a block that is
-- no choice. Both may have more than one outcome, or none.
structure Effects (σ : Type) where
  asks : Block → Bool → σ → σ → Prop
  does : Block → σ → σ → Prop

namespace Block

-- An input that is left out is an empty stack.
def substack (name : String) (b : Block) : List Block :=
  match b.input? name with
  | some (.stack bs) => bs
  | _ => []

-- The condition of a choice, and what runs if it answers yes and if it answers no.
def decision? (b : Block) : Option (Block × List Block × List Block) :=
  match b.opcode, b.input? "CONDITION" with
  | "control_if", some (.block c) => some (c, b.substack "SUBSTACK", [])
  | "control_if_else", some (.block c) => some (c, b.substack "SUBSTACK", b.substack "SUBSTACK2")
  | _, _ => none

variable {σ : Type} (m : Effects σ)

-- Runs one block after the other. What a choice decides for runs before what follows the choice.
inductive Runs : List Block → σ → σ → Prop
  | done {s : σ} : Runs [] s s
  | act {b : Block} {bs : List Block} {s t u : σ} : b.decision? = none → m.does b s t →
      Runs bs t u → Runs (b :: bs) s u
  | choose {b c : Block} {yes no bs : List Block} {answer : Bool} {s t u : σ} :
      b.decision? = some (c, yes, no) → m.asks c answer s t →
      Runs ((if answer then yes else no) ++ bs) t u → Runs (b :: bs) s u

-- All conditions have been asked, and none has answered yes.
inductive Denied : List (Block × List Block) → σ → σ → Prop
  | nil {s : σ} : Denied [] s s
  | cons {c : Block} {body : List Block} {parts : List (Block × List Block)} {s t u : σ} :
      m.asks c false s t → Denied parts t u → Denied ((c, body) :: parts) s u

-- What a chain decides for, and the state in which it is to run: the stack of the first part whose
-- condition answers yes, or the other one if none does.
inductive Decides (parts : List (Block × List Block)) (other : List Block) :
    σ → List Block → σ → Prop
  | part {n : Nat} {c : Block} {body : List Block} {s t u : σ} : parts[n]? = some (c, body) →
      Denied m (parts.take n) s t → m.asks c true t u → Decides parts other s body u
  | other {s t : σ} : Denied m parts s t → Decides parts other s other t

-- A block for each part of a chain, with the rest of the chain in the last input of the one before
-- it. The innermost has no such input if there is nothing to run otherwise.
inductive Nests : List (Block × List Block) → Option (List Block) → Block → Prop
  | lone {b c : Block} {body : List Block} : b.opcode = "control_if" →
      b.inputs = [("CONDITION", .block c), ("SUBSTACK", .stack body)] → Nests [(c, body)] none b
  | last {b c : Block} {body other : List Block} : b.opcode = "control_if_else" →
      b.inputs = [("CONDITION", .block c), ("SUBSTACK", .stack body),
        ("SUBSTACK2", .stack other)] → Nests [(c, body)] (some other) b
  | outer {b b' c : Block} {body : List Block} {other : Option (List Block)}
      {parts : List (Block × List Block)} : b.opcode = "control_if_else" →
      b.inputs = [("CONDITION", .block c), ("SUBSTACK", .stack body),
        ("SUBSTACK2", .stack [b'])] → Nests parts other b' → Nests ((c, body) :: parts) other b

variable {m} {s t u v : σ} {b c : Block} {span : Span} {body yes no bs rest : List Block}
  {other : Option (List Block)} {parts : List (Block × List Block)}

theorem runs_choice (h : b.decision? = some (c, yes, no)) :
    Runs m (b :: rest) s v ↔ (∃ t, m.asks c true s t ∧ Runs m (yes ++ rest) t v) ∨
      ∃ t, m.asks c false s t ∧ Runs m (no ++ rest) t v := by
  constructor
  case mp =>
    intro hr
    cases hr with
    | act hn _ _ => exact nomatch h.symm.trans hn
    | @choose _ _ _ _ _ answer _ t _ hd ha hr =>
      cases h.symm.trans hd
      cases answer
      case true => exact .inl ⟨t, ha, hr⟩
      case false => exact .inr ⟨t, ha, hr⟩
  case mpr =>
    rintro (⟨t, ha, hr⟩ | ⟨t, ha, hr⟩)
    · exact .choose h ha hr
    · exact .choose h ha hr

theorem decides_nil : Decides m [] no s bs t ↔ bs = no ∧ s = t := by
  constructor
  case mp =>
    intro h
    cases h with
    | part hp _ _ => cases hp
    | other hd =>
      cases hd
      exact ⟨rfl, rfl⟩
  case mpr =>
    rintro ⟨rfl, rfl⟩
    exact .other .nil

-- Either the first part is decided for, or it is not and the others decide.
theorem decides_cons : Decides m ((c, body) :: parts) no s bs u ↔
    (bs = body ∧ m.asks c true s u) ∨ ∃ t, m.asks c false s t ∧ Decides m parts no t bs u := by
  constructor
  case mp =>
    intro h
    cases h with
    | @part n _ _ _ _ _ hp hd ha =>
      cases n
      case zero =>
        cases hp
        cases hd
        exact .inl ⟨rfl, ha⟩
      case succ n =>
        cases hd with
        | cons hc hd => exact .inr ⟨_, hc, .part hp hd ha⟩
    | other hd =>
      cases hd with
      | cons hc hd => exact .inr ⟨_, hc, .other hd⟩
  case mpr =>
    rintro (⟨rfl, ha⟩ | ⟨t, hc, hd⟩)
    · exact .part (n := 0) rfl .nil ha
    · cases hd with
      | @part n _ _ _ _ _ hp hd ha => exact .part (n := n + 1) hp (.cons hc hd) ha
      | other hd => exact .other (.cons hc hd)

theorem decision?_lone (ho : b.opcode = "control_if")
    (hi : b.inputs = [("CONDITION", .block c), ("SUBSTACK", .stack body)]) :
    b.decision? = some (c, body, []) := by
  simp [decision?, substack, input?, ho, hi, List.lookup_cons]

theorem decision?_both (ho : b.opcode = "control_if_else")
    (hi : b.inputs = [("CONDITION", .block c), ("SUBSTACK", .stack yes),
      ("SUBSTACK2", .stack no)]) :
    b.decision? = some (c, yes, no) := by
  simp [decision?, substack, input?, ho, hi, List.lookup_cons]

-- A choice does what a chain does that starts with it, if what it is made for otherwise does what
-- the rest of the chain does.
theorem runs_cons {last : List Block} (hb : b.decision? = some (c, body, no))
    (hr : ∀ s, Runs m (no ++ rest) s v ↔
      ∃ bs t, Decides m parts last s bs t ∧ Runs m (bs ++ rest) t v) :
    Runs m (b :: rest) s v ↔
      ∃ bs t, Decides m ((c, body) :: parts) last s bs t ∧ Runs m (bs ++ rest) t v := by
  rw [runs_choice hb]
  constructor
  case mp =>
    rintro (⟨t, ha, h⟩ | ⟨t, ha, h⟩)
    · exact ⟨body, t, decides_cons.mpr (.inl ⟨rfl, ha⟩), h⟩
    · have ⟨bs, u, hd, h⟩ := (hr t).mp h
      exact ⟨bs, u, decides_cons.mpr (.inr ⟨t, ha, hd⟩), h⟩
  case mpr =>
    rintro ⟨bs, u, hd, h⟩
    cases decides_cons.mp hd
    case inl hd => exact .inl ⟨u, hd.2, hd.1 ▸ h⟩
    case inr hd =>
      have ⟨t, ha, hd⟩ := hd
      exact .inr ⟨t, ha, (hr t).mpr ⟨bs, u, hd, h⟩⟩

theorem runs_nil : Runs m (no ++ rest) s v ↔
    ∃ bs t, Decides m [] no s bs t ∧ Runs m (bs ++ rest) t v := by
  simp [decides_nil]

theorem Nests.writtenAt (h : Nests parts other b) : Nests parts other (b.writtenAt span) := by
  cases h with
  | lone ho hi => exact .lone ho hi
  | last ho hi => exact .last ho hi
  | outer ho hi h => exact .outer ho hi h

theorem Nests.runs (h : Nests parts other b) : Runs m (b :: rest) s v ↔
    ∃ bs t, Decides m parts (other.getD []) s bs t ∧ Runs m (bs ++ rest) t v := by
  induction h generalizing s
  case lone ho hi => exact runs_cons (decision?_lone ho hi) fun _ => runs_nil
  case last ho hi => exact runs_cons (decision?_both ho hi) fun _ => runs_nil
  case outer ho hi _ hr => exact runs_cons (decision?_both ho hi) fun _ => hr

end Block

namespace Stmt

variable {scope : Scope} {span : Span} {first : Expr × List Stmt} {rest : List (Expr × List Stmt)}
  {otherwise : Option (List Stmt)} {x other : Option (List Block)} {bs : List Block}
  {o : Except Diagnostic (Option (List Block))}

-- What a branch is made into, whatever the other branches are.
structure Part (scope : Scope) (branch : Expr × List Stmt) (part : Block × List Block) : Prop where
  condition : ∃ i, branch.1.input scope = .ok i ∧ part.1 = Block.ofTruth i false
  body      : Stmt.stack scope branch.2 = .ok part.2

-- What a chain of branches is made into, and what that block does before others.
structure Chained (scope : Scope) (branches : List (Expr × List Stmt))
    (otherwise : Option (List Stmt)) (parts : List (Block × List Block))
    (other : Option (List Block)) (b : Block) : Prop where
  branches  : List.Forall₂ (Part scope) branches parts
  otherwise : Option.Rel (fun body bs => Stmt.stack scope body = .ok bs) otherwise other
  nests     : b.Nests parts other
  runs      : ∀ {σ : Type} (m : Effects σ) (rest : List Block) (s v : σ),
    Block.Runs m (b :: rest) s v ↔
      ∃ bs t, Block.Decides m parts (other.getD []) s bs t ∧ Block.Runs m (bs ++ rest) t v

theorem chain_cons (h : Stmt.chain scope o (first :: rest) = .ok x) :
    ∃ part next, Part scope first part ∧ Stmt.chain scope o rest = .ok next ∧
      x = some [Block.choice part.1 part.2 next] := by
  rw [Stmt.chain] at h
  simp only [bind_eq_ok, pure_eq_ok] at h
  obtain ⟨i, hi, bs, hb, body, hs, next, hn, hx⟩ := h
  have hp : Part scope first (Block.ofTruth i false, body) :=
    ⟨⟨i, hi, rfl⟩, bind_eq_ok.mpr ⟨bs, hb, hs⟩⟩
  exact ⟨_, next, hp, hn, hx.symm⟩

-- What follows the last branch is carried along the whole chain.
theorem nests_chain (h : Stmt.chain scope o (first :: rest) = .ok x) :
    ∃ b parts other, x = some [b] ∧ o = .ok other ∧
      List.Forall₂ (Part scope) (first :: rest) parts ∧ Block.Nests parts other b := by
  have ⟨part, next, hp, hn, hx⟩ := chain_cons h
  induction rest generalizing first x part next
  case nil =>
    refine ⟨_, [part], next, hx, hn, .cons hp .nil, ?_⟩
    cases next
    case none => exact .lone rfl rfl
    case some => exact .last rfl rfl
  case cons hr =>
    have ⟨part', next', hp', hn', hx'⟩ := chain_cons hn
    have ⟨b, parts, other, hb, ho, hps, hs⟩ := hr hn part' next' hp' hn' hx'
    refine ⟨_, part :: parts, other, hx, ho, .cons hp hps, ?_⟩
    exact hb ▸ .outer rfl rfl hs

theorem chained_branch (h : (Stmt.branch span (first :: rest) otherwise).blocks scope = .ok bs) :
    ∃ b parts other, bs = [b] ∧ Chained scope (first :: rest) otherwise parts other b := by
  cases otherwise
  all_goals
    simp only [Stmt.blocks, bind_eq_ok, pure_eq_ok] at h
    obtain ⟨x, hx, hb⟩ := h
    obtain ⟨b, parts, other, hx, ho, hp, hn⟩ := nests_chain hx
    have hn : (b.writtenAt span).Nests parts other := hn.writtenAt
    subst hx
    refine ⟨_, parts, other, hb.symm, hp, ?_, hn, fun _ _ _ _ => hn.runs⟩
  case none => exact Except.ok.inj ho ▸ .none
  case some =>
    simp only [bind_eq_ok, pure_eq_ok] at ho
    obtain ⟨_, hb, bs, hs, ho⟩ := ho
    exact ho ▸ .some (bind_eq_ok.mpr ⟨_, hb, hs⟩)

end Stmt

-- No condition ever holds, and what is run is noted down.
def Effects.noted : Effects (List String) where
  asks _ answer s t := answer = false ∧ s = t
  does b s t        := t = s ++ [b.opcode]

theorem Block.denied_noted {s : List String} : Denied .noted parts s s := by
  induction parts
  case nil => exact .nil
  case cons hp => exact .cons ⟨rfl, rfl⟩ hp

-- The blocks of a script that is one chain, and those of what it runs otherwise on its own.
def Stmt.chain? (text : String) : Option (List String × List String) := do
  let (symbols, script) ← Symbols.script? text
  let scope : Scope := ⟨symbols, .builtin, none⟩
  match script with
  | [.branch span (first :: rest) (some body)] =>
    let bs ← ((Stmt.branch span (first :: rest) (some body)).blocks scope).toOption
    let other ← (Stmt.stack scope body).toOption
    return ((Block.blocksAll bs).map Block.opcode, other.map Block.opcode)
  | _ => none

def chainText : String :=
  "variables x, y;\nonflag \x7b if x \x7b y = 1; \x7d elif y \x7b \x7d else \x7b hide y; \x7d \x7d"

def chainOpcodes : List String :=
  ["control_if_else", "operator_not", "operator_equals", "data_setvariableto", "control_if_else",
    "operator_not", "operator_equals", "data_hidevariable"]

theorem Stmt.chained_chainText : ∃ symbols span first rest body b parts other,
    Symbols.script? chainText = some (symbols, [.branch span (first :: rest) (some body)]) ∧
      (branch span (first :: rest) (some body)).blocks ⟨symbols, .builtin, none⟩ = .ok [b] ∧
      Chained ⟨symbols, .builtin, none⟩ (first :: rest) (some body) parts other b ∧
      b.blocks.map Block.opcode = chainOpcodes ∧
      Block.Runs .noted [b] [] ["data_hidevariable"] := by
  have h : chain? chainText = some (chainOpcodes, ["data_hidevariable"]) := by decide +kernel
  simp only [chain?, Option.bind_eq_bind, Option.bind_eq_some_iff] at h
  obtain ⟨⟨symbols, script⟩, hs, h⟩ := h
  split at h
  case h_2 => contradiction
  case h_1 span first rest body he =>
    obtain rfl : script = [.branch span (first :: rest) (some body)] := he
    simp only [Option.bind_eq_some_iff] at h
    obtain ⟨bs, hb, other, ho, h⟩ := h
    obtain ⟨hn, hd⟩ := Prod.mk.inj (Option.some.inj h)
    obtain ⟨b, parts, last, rfl, hc⟩ := chained_branch (eq_ok_of_toOption hb)
    have hr : Block.Runs .noted [b] [] ["data_hidevariable"] := by
      cases hc.otherwise with
      | some hl =>
        cases (eq_ok_of_toOption ho).symm.trans hl
        obtain ⟨b', rfl, hb⟩ := List.map_eq_singleton_iff.mp hd
        refine (hc.runs .noted [] [] _).mpr ⟨[b'], [], .other Block.denied_noted, ?_⟩
        exact .act (t := [b'.opcode]) (by simp [Block.decision?, hb]) rfl (hb ▸ .done)
    have hn : b.blocks.map Block.opcode = chainOpcodes := by simpa [Block.blocksAll] using hn
    exact ⟨_, _, _, _, _, b, parts, last, hs, eq_ok_of_toOption hb, hc, hn, hr⟩

end BlockLang
