import NovelScript.Script.Nesting

/-!
Scripts as trees. The commands of a sound script are the leaves of a tree, in which a conditional
holds the block of each of its branches. A tree is written out as the flat list that the queue
has; what lists are written so is the grammar of conditionals.
-/

namespace NovelScript.Script

/-! ### Commands in the grammar -/

namespace Command

/-- The mark that a command is. -/
def mark? : Command → Option Mark
  | .elif _ => some .elif
  | .else => some .else
  | .endIf => some .endIf
  | _ => none

/-- Whether a command has no part in a conditional. -/
def isPlain : Command → Bool
  | .if _ _ | .elif _ | .else | .endIf => false
  | _ => true

/-- A command without the marks that belong to it. -/
def bare (c : Command) : Command := c.relate []

@[simp] theorem bare_relate (related : List CommandId) (c : Command) :
    (c.relate related).bare = c.bare := by cases c <;> rfl

@[simp] theorem mark?_bare (c : Command) : c.bare.mark? = c.mark? := by cases c <;> rfl

theorem bare_of_isPlain {c : Command} (h : c.isPlain = true) : c.bare = c := by
  cases c <;> simp_all [isPlain, bare, relate]

theorem mark?_of_isPlain {c : Command} (h : c.isPlain = true) : c.mark? = none := by
  cases c <;> simp_all [isPlain, mark?]

end Command

/-! ### Trees -/

mutual

/-- Commands and conditionals, one after the other. -/
inductive Block
  | nil
  | command (c : Command) (plain : c.isPlain = true) (rest : Block)
  | conditional (condition : String) (body : Block) (branches : Branches) (rest : Block)

/-- What follows the first branch of a conditional: any number of branches with a condition, at
most one without, and the end. -/
inductive Branches
  | endIf
  | else (body : Block)
  | elif (condition : String) (body : Block) (rest : Branches)

end

mutual

/-- The commands of a block, written out. -/
def Block.commands : Block → List Command
  | .nil => []
  | .command c _ rest => c :: rest.commands
  | .conditional condition body branches rest =>
    .if condition [] :: (body.commands ++ (branches.commands ++ rest.commands))

/-- The commands of branches, written out. -/
def Branches.commands : Branches → List Command
  | .endIf => [.endIf]
  | .else body => .else :: (body.commands ++ [.endIf])
  | .elif condition body rest => .elif condition :: (body.commands ++ rest.commands)

end

/-- The commands are written out from a tree: **the grammar of conditionals**,
`S ::= empty | c S | if S (elif S)* (else S)? endif S`. -/
def Generated (commands : List Command) : Prop :=
  ∃ block : Block, block.commands = commands.map Command.bare

/-- The number of commands of a block. -/
def Block.size (b : Block) : Nat := b.commands.length

/-- The number of commands of branches. -/
def Branches.size (b : Branches) : Nat := b.commands.length

namespace Block

@[simp] theorem size_command (c : Command) (plain : c.isPlain = true) (rest : Block) :
    (command c plain rest).size = rest.size + 1 := by simp [size, commands]

@[simp] theorem size_conditional (condition : String) (body rest : Block) (branches : Branches) :
    (conditional condition body branches rest).size = body.size + branches.size + rest.size + 1 := by
  simp [size, Branches.size, commands]
  omega

/-- One block behind the other. -/
def append : Block → Block → Block
  | nil, b => b
  | command c plain rest, b => command c plain (rest.append b)
  | conditional condition body branches rest, b =>
    conditional condition body branches (rest.append b)

@[simp] theorem commands_append : ∀ a b : Block,
    (a.append b).commands = a.commands ++ b.commands
  | nil, b => by simp [append, commands]
  | command c plain rest, b => by simp [append, commands, commands_append rest b]
  | conditional condition body branches rest, b => by
    simp [append, commands, commands_append rest b]

end Block

namespace Branches

@[simp] theorem size_endIf : endIf.size = 1 := by simp [size, commands]

@[simp] theorem size_else (body : Block) : (Branches.else body).size = body.size + 2 := by
  simp [size, Block.size, commands]

@[simp] theorem size_elif (condition : String) (body : Block) (rest : Branches) :
    (elif condition body rest).size = body.size + rest.size + 1 := by
  simp [size, Block.size, commands]

theorem size_pos (b : Branches) : 0 < b.size := by
  cases b <;> simp

/-! ### The marks of a conditional -/

/-- The marks of branches that begin at the command `k`. -/
def marks (k : Nat) : Branches → List (CommandId × Mark)
  | endIf => [(k, .endIf)]
  | .else body => [(k, .else), (k + 1 + body.size, .endIf)]
  | elif _ body rest => (k, .elif) :: rest.marks (k + 1 + body.size)

/-- The end of branches that begin at the command `k`. -/
def last (k : Nat) (b : Branches) : Nat := k + b.size - 1

end Branches

/-- The marks stand in order: one `else` at most, and no `elif` behind it. -/
def Orderly (marks : List (CommandId × Mark)) : Prop :=
  marks.Pairwise fun a b => a.2 = .else → b.2 = .endIf

theorem Branches.orderly_marks : ∀ (b : Branches) (k : Nat), Orderly (b.marks k)
  | endIf, k => by simp [Orderly, marks]
  | .else body, k => by simp [Orderly, marks]
  | elif condition body rest, k => by
    have ih := rest.orderly_marks (k + 1 + body.size)
    simpa [Orderly, marks] using ih

theorem Branches.getLast?_marks : ∀ (b : Branches) (k : Nat),
    ((b.marks k).map Prod.fst).getLast? = some (b.last k)
  | endIf, k => by simp [marks, last]
  | .else body, k => by
    have h : k + 1 + body.size = k + (body.size + 2) - 1 := by omega
    simp [marks, last, ← h]
  | elif condition body rest, k => by
    have ih := rest.getLast?_marks (k + 1 + body.size)
    have hpos := rest.size_pos
    have h : k + 1 + body.size + rest.size - 1 = k + (body.size + rest.size + 1) - 1 := by omega
    simp only [marks, List.map_cons, List.getLast?_cons, ih, Option.getD_some, last, size_elif, h]

end NovelScript.Script
