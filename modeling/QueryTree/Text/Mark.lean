/-!
The mark that may stand at the start of a text to tell its encoding. It is not part of the text.
-/

namespace QueryTree.Text

def withoutMark : List Char → List Char
  | '\uFEFF' :: cs => cs
  | cs => cs

end QueryTree.Text
