/-!
Machine words: 64 bits with a sign.
-/
namespace TemplateActions.Word

def limit : Int := 9223372036854775808

def holds (n : Int) : Bool := -limit ≤ n && n < limit

end TemplateActions.Word
