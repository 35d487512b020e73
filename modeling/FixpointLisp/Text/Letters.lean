/-!
# Comparing words without regard to case

Some words are recognised however their ASCII letters are written: the literals `true` and `false`,
the names of the special numbers, and the word that ends a console session.

* `sameWord` compares two texts up to the case of ASCII letters.
-/

namespace FixpointLisp
namespace Text

/-- Whether two texts are equal up to the case of their ASCII letters. -/
def sameWord (s t : String) : Bool := s.toList.map Char.toLower == t.toList.map Char.toLower

@[simp] theorem sameWord_self (s : String) : sameWord s s := by simp [sameWord]

end Text
end FixpointLisp
