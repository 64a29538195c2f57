import YamlStyle.Token.Stream

/-!
# Windows

A window is a token together with everything on either side of it, the way a token rule sees it. The
windows of a list are its zipper positions, so a window never points outside the list.
-/

set_option autoImplicit false

namespace YamlStyle

/-- A token and its neighbours. -/
structure Window where
  /-- The tokens before the current one, the nearest first. -/
  before : List Token
  /-- The token under inspection. -/
  current : Token
  /-- The tokens after the current one. -/
  after : List Token
  deriving DecidableEq, Repr

namespace Window

/-- The windows of a list of tokens, when the tokens `before` (nearest first) stand ahead of it. -/
def allFrom (before : List Token) : List Token → List Window
  | [] => []
  | t :: rest => ⟨before, t, rest⟩ :: allFrom (t :: before) rest

/-- The windows of a list of tokens, one for each token. -/
def all (tokens : List Token) : List Window := allFrom [] tokens

/-- The window around the token at an index. -/
def at? (tokens : List Token) (index : Nat) : Option Window := (all tokens)[index]?

/-- Index of the current token. -/
def index (w : Window) : Nat := w.before.length

/-- Number of tokens in the list the window looks at. -/
def size (w : Window) : Nat := w.before.length + 1 + w.after.length

/-- The token before the current one. -/
def previous? (w : Window) : Option Token := w.before.head?

/-- The token after the current one. -/
def next? (w : Window) : Option Token := w.after.head?

/-- Whether a token says something about the document, apart from its layout. -/
def isSignificant (t : Token) : Bool := t.kind != .comment && t.kind != .lineBreak

/-- The nearest token before the current one that is neither a comment nor a line break. -/
def previousSignificant? (w : Window) : Option Token := w.before.find? isSignificant

end Window

end YamlStyle
