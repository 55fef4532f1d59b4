/-!
# Library summaries

One line about each name that a session starts with: the special forms, the functions of the core
scope, and the members of the library maps.
-/

namespace ShellLisp

/-- The names that a session starts with, in the order of the library, each with its summary. -/
def librarySummaries : List (String × String) := [
  ("def", "(def $name value)"),
  ("defn", "(defn $add [$x $y] (+ $x $y)) => (def $add (fn [$x $y] (+ $x $y)))"),
  ("fn", "(fn [$x $y] (+ $x $y)) closes over the scope active at this form."),
  ("if", "special form if"),
  ("for", "(for $i in (Array.range 0 3) (* $i $i)) => [0 1 4]"),
  ("let", "(let [$x 2] (+ $x 1))"),
  ("delete", "(delete $a $b ...) removes each binding; unbound names are ignored."),
  ("and", "Short-circuiting logical AND."),
  ("or", "Short-circuiting logical OR."),
  ("eval", "(eval \"(+ 1 2)\") evaluates lish source text in the calling scope."),
  ("+", "Sum of all arguments; strings concatenate."),
  ("-", "Subtract subsequent arguments from the first; unary negation for one arg."),
  ("*", "builtin *"),
  ("/", "Divide left to right. Division by zero is a located error."),
  ("%", "builtin %"),
  ("modulus", "builtin modulus"),
  ("^", "builtin ^"),
  ("==", "builtin =="),
  ("!=", "builtin !="),
  ("<", "Chainable less-than: true if a0 < a1 < a2 ... holds for all pairs."),
  ("<=", "builtin <="),
  (">", "builtin >"),
  (">=", "builtin >="),
  ("not", "builtin not"),
  ("xor", "builtin xor"),
  ("nil?", "builtin nil?"),
  ("typeOf", "builtin typeOf"),
  ("get", "(get $obj \"a\" \"b\") reads obj.a.b."),
  ("set", "(set $obj \"a\" \"b\" value) writes obj.a.b = value and returns obj."),
  ("do", "Arguments are already evaluated in order; the last one is the result."),
  ("echo", "builtin echo"),
  ("apply", "(apply $f [1 2]) calls $f with the elements of the array as arguments."),
  ("range", "(Array.range 0 3) => 0 1 2, lazily. (Array.range 5) counts up forever."),
  ("toArray", "builtin toArray"),
  ("cd", "(cd path) changes the session working directory"),
  ("cwd", "(cwd) the session working directory"),
  ("Array.range", "(Array.range 0 3) => 0 1 2, lazily. (Array.range 5) counts up forever."),
  ("Array.from", "Array.from"),
  ("Array.toArray", "Array.toArray"),
  ("Array.map", "Array.map"),
  ("Array.flatMap", "Array.flatMap"),
  ("Array.filter", "Array.filter"),
  ("Array.fold", "(Array.fold $xs init $f) => (f (f init x0) x1) ..."),
  ("Array.head", "Array.head"),
  ("Array.tail", "Array.tail"),
  ("Array.init", "Array.init"),
  ("Array.last", "Array.last"),
  ("Array.take", "Array.take"),
  ("Array.drop", "Array.drop"),
  ("Array.length", "Array.length"),
  ("Array.join", "(Array.join $xs \", \"), separator defaults to a single space."),
  ("Array.reverse", "Array.reverse"),
  ("Array.sort", "(Array.sort $xs) or (Array.sort $xs $compare) where compare returns a number."),
  ("Array.concat", "Array.concat"),
  ("String.length", "String.length"),
  ("String.split",
    "(String.split \"a,b\" \",\"). Without a separator splits on runs of whitespace."),
  ("String.trim", "String.trim"),
  ("String.upper", "String.upper"),
  ("String.lower", "String.lower"),
  ("String.replace", "(String.replace text old new) replaces every occurrence."),
  ("String.startsWith", "String.startsWith"),
  ("String.endsWith", "String.endsWith"),
  ("String.contains", "String.contains"),
  ("String.concat", "Joins the printed form of every argument with no separator."),
  ("String.toJson", "String.toJson"),
  ("Parse.words", "Parse.words"),
  ("Parse.lines",
    "Lines of text without their terminators. A trailing newline adds no empty line."),
  ("Parse.table", "(Parse.table [keys] text) or (Parse.table delimiter [keys] text)."),
  ("Parse.json", "Parse.json"),
  ("Parse.number", "Parse.number"),
  ("IO.print", "IO.print"),
  ("IO.error", "IO.error"),
  ("File.read", "File.read"),
  ("File.write",
    "(File.write path text) replaces the file contents and returns the resolved path."),
  ("File.append", "File.append"),
  ("File.exists", "File.exists"),
  ("File.isDirectory", "File.isDirectory"),
  ("File.list", "Sorted entry names of a directory, the working directory when no path is given."),
  ("File.remove", "Deletes a file or a directory tree. Returns false when nothing was there.")]

def librarySummary? (name : String) : Option String := librarySummaries.lookup name

end ShellLisp
