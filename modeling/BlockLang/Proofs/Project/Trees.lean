import BlockLang.Proofs.Graph.Tree
import BlockLang.Proofs.Project.Compile

/-!
The document of a compiled project holds all blocks of its scripts, in the order in which they run.
-/

namespace BlockLang

open Document

namespace Sprite

variable {R : Ref → Prop} {s : Sprite} {records : List Record} {costumes : List Costume}
  {layer : Nat} {messages : List String}

end Sprite

namespace Project

end Project

end BlockLang
