import GraphMachine.Proofs.Operation.Reads

/-!
# What operations leave alone

An operation is done as a whole or not at all.  If it fails, memory is as it was, and unless the
output refused the line nothing was written.  If it succeeds, it changes the one thing that it is
for: a store or a count changes the cell that its destination denotes, a move changes the pointer,
an output adds a line, and a test changes nothing and answers.
-/

namespace GraphMachine

namespace Operation

/-- What is different after an operation that succeeded: memory, output and answer. -/
inductive Changes (s : Scope) (maxDepth : Nat) (out : Sink) :
    Operation → Option Bool → Memory → Sink → Prop
  | set
      {target : Reference}
      {expression : String}
      {value : Value}
      {memory : Memory}
      (hvalue : evaluate s maxDepth expression = .ok value)
      (hmemory : s.memory.Stores (target.cell s.memory) value.toWord memory) :
      Changes s maxDepth out (.set target expression) none memory out
  | increment
      {target : Reference}
      {value : Int64}
      {memory : Memory}
      (hvalue : target.read s = .ok value)
      (hmemory : s.memory.Stores (target.cell s.memory) (value + 1) memory) :
      Changes s maxDepth out (.increment target) none memory out
  | decrement
      {target : Reference}
      {value : Int64}
      {memory : Memory}
      (hvalue : target.read s = .ok value)
      (hmemory : s.memory.Stores (target.cell s.memory) (value - 1) memory) :
      Changes s maxDepth out (.decrement target) none memory out
  | output
      {printed : Printed}
      {text : String}
      {out' : Sink}
      (htext : line s maxDepth printed = .ok text)
      (hout : out'.taken = out.taken ++ (text ++ "\n").toUTF8) :
      Changes s maxDepth out (.output printed) none s.memory out'
  | check
      {condition : Option String}
      (result : Bool) :
      Changes s maxDepth out (.check condition) (some result) s.memory out
  | shift
      {delta : Int64} :
      Changes s maxDepth out (.shift delta) none
        { s.memory with pointer := s.memory.pointer + delta } out

section Frame

variable {s : Scope}
variable {maxDepth : Nat}
variable {out out' : Sink}
variable {op : Operation}
variable {eff : Effect}

theorem eq_store_of_storing
    {target : Reference}
    {value : Int64}
    (h : Effect.storing s target value = .ok eff) :
    eff = .store target value := by
  obtain ⟨_, _, rfl⟩ := map_eq_ok_iff.mp h
  rfl

/-- A store is all that comes of a word that was read to be stored. -/
theorem exists_store_of_bind
    {α : Type}
    {read : Except EvalError α}
    {target : Reference}
    {word : α → Int64}
    (h : (read.bind fun v => Effect.storing s target (word v)) = .ok eff) :
    ∃ v, read = .ok v ∧ eff = .store target (word v) := by
  obtain ⟨v, hread, hstore⟩ := bind_eq_ok_iff.mp h
  exact ⟨v, hread, eq_store_of_storing hstore⟩

/-- An effect that writes nothing leaves the output as it is. -/
theorem out_eq_of_silent
    (hwrite : out.write eff.output = (true, out'))
    (hsilent : eff.output = "") :
    out' = out := by
  rw [hsilent, Sink.write_empty] at hwrite
  cases hwrite
  rfl

/-- Operations other than outputs write nothing. -/
theorem output_eq_empty
    (heffect : op.effect s maxDepth = .ok eff)
    (hkeyword : op.keyword ≠ .output) :
    eff.output = "" := by
  cases op with
  | set target expression =>
      obtain ⟨v, -, rfl⟩ := exists_store_of_bind heffect
      rfl
  | increment target =>
      obtain ⟨v, -, rfl⟩ := exists_store_of_bind heffect
      rfl
  | decrement target =>
      obtain ⟨v, -, rfl⟩ := exists_store_of_bind heffect
      rfl
  | output printed => exact absurd rfl hkeyword
  | check condition =>
      cases condition with
      | none =>
          cases heffect
          rfl
      | some condition =>
          obtain ⟨v, -, rfl⟩ := map_eq_ok_iff.mp heffect
          rfl
  | shift delta =>
      cases heffect
      rfl

/-- The effect of an operation makes the changes that the operation is for. -/
theorem changes_of_effect
    (heffect : op.effect s maxDepth = .ok eff)
    (hwrite : out.write eff.output = (true, out')) :
    Changes s maxDepth out op eff.result (eff.applyTo s.memory) out' := by
  cases op with
  | set target expression =>
      obtain ⟨v, hvalue, rfl⟩ := exists_store_of_bind heffect
      obtain rfl := out_eq_of_silent hwrite rfl
      exact .set hvalue (target.stores_store _ s.memory)
  | increment target =>
      obtain ⟨v, hvalue, rfl⟩ := exists_store_of_bind heffect
      obtain rfl := out_eq_of_silent hwrite rfl
      exact .increment hvalue (target.stores_store _ s.memory)
  | decrement target =>
      obtain ⟨v, hvalue, rfl⟩ := exists_store_of_bind heffect
      obtain rfl := out_eq_of_silent hwrite rfl
      exact .decrement hvalue (target.stores_store _ s.memory)
  | output printed =>
      obtain ⟨text, htext, rfl⟩ := map_eq_ok_iff.mp heffect
      exact .output htext (Sink.taken_of_write hwrite)
  | check condition =>
      have hanswer : ∃ result, eff = .answer result := by
        cases condition with
        | none =>
            cases heffect
            exact ⟨_, rfl⟩
        | some condition =>
            obtain ⟨v, _, rfl⟩ := map_eq_ok_iff.mp heffect
            exact ⟨_, rfl⟩
      obtain ⟨result, rfl⟩ := hanswer
      obtain rfl := out_eq_of_silent hwrite rfl
      exact .check result
  | shift delta =>
      cases heffect
      obtain rfl := out_eq_of_silent hwrite rfl
      exact .shift

/-- Only tests answer, and they always do. -/
theorem Changes.isSome_iff
    {answer : Option Bool}
    {memory : Memory}
    (h : Changes s maxDepth out op answer memory out') :
    answer.isSome = true ↔ op.keyword = .check := by
  cases h <;> simp [keyword]

/-- Operations are atomic and touch only what they name.

* If an operation fails, memory is as it was; and unless the output refused, it is as it was, too.
* If it succeeds, it has changed what it is for and nothing else, and it has answered exactly if it
  is a test. -/
theorem execute_atomic
    (op : Operation)
    (s : Scope)
    (maxDepth : Nat)
    (out : Sink) :
    (∀ err,
      (op.execute s maxDepth out).result = .error err →
      (op.execute s maxDepth out).memory = s.memory ∧
      (err ≠ .output → (op.execute s maxDepth out).out = out)) ∧
    (∀ answer,
      (op.execute s maxDepth out).result = .ok answer →
      (answer.isSome = true ↔ op.keyword = .check) ∧
      Changes s maxDepth out op answer (op.execute s maxDepth out).memory
        (op.execute s maxDepth out).out) := by
  cases heffect : op.effect s maxDepth with
  | error err =>
      have hdone : op.execute s maxDepth out = ⟨.error (.eval err), s.memory, out⟩ := by
        simp only [execute_eq, heffect]
      rw [hdone]
      exact ⟨fun _ _ => ⟨rfl, fun _ => rfl⟩, nofun⟩
  | ok eff =>
      rcases hwrite : out.write eff.output with ⟨fits, written⟩
      cases fits with
      | true =>
          have hdone :
              op.execute s maxDepth out = ⟨.ok eff.result, eff.applyTo s.memory, written⟩ := by
            simp only [execute_eq, heffect, hwrite]
          have hchanges := changes_of_effect heffect hwrite
          rw [hdone]
          refine ⟨nofun, ?_⟩
          rintro _ ⟨⟩
          exact ⟨hchanges.isSome_iff, hchanges⟩
      | false =>
          have hdone : op.execute s maxDepth out = ⟨.error .output, s.memory, written⟩ := by
            simp only [execute_eq, heffect, hwrite]
          rw [hdone]
          refine ⟨?_, nofun⟩
          rintro _ ⟨⟩
          exact ⟨rfl, fun hne => absurd rfl hne⟩

end Frame

def nine : Scope :=
  ⟨Memory.empty.set 0 9, .tape⟩

/-- A division by zero is not stored, a value is not stored under a name that the mode forbids, a
line without room is cut and changes no memory, and a count changes its cell. -/
theorem nine_atomic :
    (((set .current "\x7b\x7d / 0").execute nine 256 (.limited 3)).result =
        .error (.eval .divisionByZero) ∧
      ((set .current "\x7b\x7d / 0").execute nine 256 (.limited 3)).memory = nine.memory ∧
      ((set .current "\x7b\x7d / 0").execute nine 256 (.limited 3)).out = .limited 3) ∧
    (((set (.named "x") "1").execute nine 256 (.limited 3)).result =
        .error (.eval (.namedMemoryDisabled "x")) ∧
      ((set (.named "x") "1").execute nine 256 (.limited 3)).memory = nine.memory) ∧
    (((output (.template "line \x7b\x7d")).execute nine 256 (.limited 3)).result =
        .error .output ∧
      ((output (.template "line \x7b\x7d")).execute nine 256 (.limited 3)).memory = nine.memory) ∧
    (((increment .current).execute nine 256 (.limited 3)).result = .ok none ∧
      Changes nine 256 (.limited 3) (.increment .current) none
        ((increment .current).execute nine 256 (.limited 3)).memory
        ((increment .current).execute nine 256 (.limited 3)).out) := by
  have hquotient :
      ((set .current "\x7b\x7d / 0").execute nine 256 (.limited 3)).result =
        .error (.eval .divisionByZero) := by
    decide +kernel
  have hname :
      ((set (.named "x") "1").execute nine 256 (.limited 3)).result =
        .error (.eval (.namedMemoryDisabled "x")) := by
    decide +kernel
  have hline :
      ((output (.template "line \x7b\x7d")).execute nine 256 (.limited 3)).result =
        .error .output := by
    decide +kernel
  have hcount : ((increment .current).execute nine 256 (.limited 3)).result = .ok none := by
    decide +kernel
  obtain ⟨hmemory, hout⟩ := (execute_atomic _ nine 256 (.limited 3)).1 _ hquotient
  obtain ⟨hkept, _⟩ := (execute_atomic _ nine 256 (.limited 3)).1 _ hname
  obtain ⟨hmemory', _⟩ := (execute_atomic _ nine 256 (.limited 3)).1 _ hline
  obtain ⟨_, hchanges⟩ := (execute_atomic _ nine 256 (.limited 3)).2 _ hcount
  exact ⟨⟨hquotient, hmemory, hout (by decide)⟩, ⟨hname, hkept⟩, ⟨hline, hmemory'⟩, hcount,
    hchanges⟩

end Operation
end GraphMachine
