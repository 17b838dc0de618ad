/-!
# Lexicographic order of pairs

Pairs are compared by their first and then by their second components.
-/

namespace CudaProfile
namespace Lexicographic

instance pairOrd {α β : Type} [Ord α] [Ord β] : Ord (α × β) :=
  lexOrd

end Lexicographic
end CudaProfile
