import PhpPages.Yaml.Value

namespace PhpPages

open Yaml (Value)

/-- Settings in the order in which their keys came up. Keys are texts, as far as the program
is concerned. -/
abbrev Settings := List (Value × Value)

namespace Settings

def get? (s : Settings) (key : String) : Option Value :=
  Value.get? s key

def put (s : Settings) (key : String) (value : Value) : Settings :=
  Value.put s (.text key) value

def texts (l : List String) : Value :=
  .list (l.map .text)

/-- What holds unless a file or an option says otherwise. -/
def defaults : Settings :=
  [(.text "output_path", .text "docs"),
    (.text "source_directories", texts ["app"]),
    (.text "excluded_directories",
      texts ["vendor", "node_modules", "storage", "bootstrap/cache", "public"]),
    (.text "file_extensions", texts ["php"]),
    (.text "include_protected_methods", .bool false),
    (.text "include_private_methods", .bool false),
    (.text "title", .text "PHP Documentation")]

/-- Settings overruled by others, key by key. -/
def update (s other : Settings) : Settings :=
  other.foldl (fun s entry => Value.put s entry.1 entry.2) s

/-- The keys whose overrides are appended to a configured list. -/
def additiveKeys : List String := ["source_directories", "excluded_directories"]

/-- The elements that a value contributes to a list: of a text its characters, of a
mapping its keys. -/
def elements? : Value → Option (List Value)
  | .list items => some items
  | .set items => some items
  | .text s => some (s.toList.map fun c => .text c.toString)
  | .mapping entries => some (entries.map (·.1))
  | _ => none

/-- Applies one override. A null changes nothing; `none` means that the value cannot be appended. -/
def override? (s : Settings) (key : String) (value : Value) : Option Settings :=
  match value with
  | .null => some s
  | _ =>
    match s.get? key with
    | some (.list items) =>
      if additiveKeys.contains key then
        (elements? value).map fun more => s.put key (.list (items ++ more))
      else some (s.put key value)
    | _ => some (s.put key value)

/-- Applies overrides in order. -/
def overrideAll? (s : Settings) (overrides : List (String × Value)) : Option Settings :=
  overrides.foldlM (fun s entry => s.override? entry.1 entry.2) s

end Settings

end PhpPages
