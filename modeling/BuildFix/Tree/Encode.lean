import BuildFix.Tree.File
import BuildFix.Json.Printer

/-!
# Trees as JSON

The JSON form of a build file.  An expression is an object whose member `type`
names what it is.  The fields of that type follow, and its comments stand last.
What is empty or false by default is left out, except for the lists of a node.

A written tree is the pretty form with a line end behind it.
-/

namespace BuildFix

/-- A comment as JSON. -/
def Comment.toJson (c : Comment) : Json := .object [("token", .string c.token)]

/-- A group of comments as a member, unless it is empty. -/
def Comments.groupMember (key : String) (group : List Comment) : List (String × Json) :=
  if group.isEmpty then [] else [(key, .array (group.map Comment.toJson))]

/-- Comments as JSON, without the empty groups. -/
def Comments.toJson (x : Comments) : Json :=
  .object (groupMember "before" x.before ++ groupMember "suffix" x.suffix ++
    groupMember "after" x.after)

/-- The comments of a node as a member, unless there are none. -/
def Comments.member (x : Comments) : List (String × Json) :=
  if x.isEmpty then [] else [("comments", x.toJson)]

namespace Expr

mutual

/-- An expression as JSON. -/
def toJson : Expr → Json
  | literal token c =>
      .object ([("type", .string "literal"), ("token", .string token)] ++ c.member)
  | string value c =>
      .object ([("type", .string "string"), ("value", .string value)] ++ c.member)
  | list elements c =>
      .object ([("type", .string "list"), ("elements", .array (toJsons elements))] ++ c.member)
  | dict entries c =>
      .object ([("type", .string "dict"), ("entries", .array (toJsons entries))] ++ c.member)
  | keyValue key value c =>
      .object ([("type", .string "key_value"), ("key", key.toJson), ("value", value.toJson)] ++
        c.member)
  | binary left op right c =>
      .object ([("type", .string "binary"), ("left", left.toJson), ("op", .string op),
        ("right", right.toJson)] ++ c.member)
  | call callee args compact c =>
      .object ([("type", .string "call"), ("callee", callee.toJson),
        ("args", .array (toJsons args))] ++
        (if compact then [("force_compact", .bool true)] else []) ++ c.member)

/-- A list of expressions as JSON. -/
def toJsons : List Expr → List Json
  | [] => []
  | e :: es => e.toJson :: toJsons es

end

end Expr

namespace File

/-- A build file as JSON. -/
def toJson (f : File) : Json :=
  .object [("path", .string f.path), ("stmts", .array (Expr.toJsons f.stmts))]

/-- The text written for a build file. -/
def text (f : File) : String := f.toJson.pretty ++ "\n"

end File

theorem Expr.toJsons_eq_map (es : List Expr) : Expr.toJsons es = es.map Expr.toJson := by
  induction es with
  | nil => rfl
  | cons e es ih => simp [Expr.toJsons, ih]

example : (Expr.literal "True" ⟨[], [⟨"# always"⟩], []⟩).toJson.compact =
    "\x7b\"type\":\"literal\",\"token\":\"True\"," ++
      "\"comments\":\x7b\"suffix\":[\x7b\"token\":\"# always\"\x7d]\x7d\x7d" := by
  decide +kernel

end BuildFix
