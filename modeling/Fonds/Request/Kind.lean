/-!
The four kinds of request, the sections each is made of, and the filter keywords each accepts.
-/
namespace Fonds

/-- What a request asks for. -/
inductive Kind where
  | select
  | insert
  | update
  | delete
  deriving DecidableEq

/-- A part of a request document. -/
inductive Section where
  | roots
  | query
  | filter
  | projection
  | facets
  | data
  | action
  deriving DecidableEq

/-- A keyword of the filter section. -/
inductive FilterKeyword where
  | offset
  | limit
  | orderBy
  | hint
  | scrollId
  | scrollTimeout
  | multiple
  deriving DecidableEq

namespace Section

def all : List Section := [.roots, .query, .filter, .projection, .facets, .data, .action]

def token : Section → String
  | .roots => "$roots"
  | .query => "$query"
  | .filter => "$filter"
  | .projection => "$projection"
  | .facets => "$facets"
  | .data => "$data"
  | .action => "$action"

end Section

namespace FilterKeyword

def all : List FilterKeyword :=
  [.offset, .limit, .orderBy, .hint, .scrollId, .scrollTimeout, .multiple]

def token : FilterKeyword → String
  | .offset => "$offset"
  | .limit => "$limit"
  | .orderBy => "$orderby"
  | .hint => "$hint"
  | .scrollId => "$scrollId"
  | .scrollTimeout => "$scrollTimeout"
  | .multiple => "$mult"

def ofToken? (token : String) : Option FilterKeyword := all.find? (·.token = token)

@[simp] theorem ofToken?_token (k : FilterKeyword) : ofToken? k.token = some k := by
  cases k <;> rfl

end FilterKeyword

namespace Kind

def all : List Kind := [.select, .insert, .update, .delete]

def name : Kind → String
  | .select => "select"
  | .insert => "insert"
  | .update => "update"
  | .delete => "delete"

/-- The name as messages write it. -/
def title : Kind → String
  | .select => "Select"
  | .insert => "Insert"
  | .update => "Update"
  | .delete => "Delete"

def ofName? (name : String) : Option Kind := all.find? (·.name = name)

@[simp] theorem ofName?_name (k : Kind) : ofName? k.name = some k := by
  cases k <;> rfl

/-- The sections that a request of the kind may have. -/
def sections : Kind → List Section
  | .select => [.roots, .query, .filter, .projection, .facets]
  | .insert => [.roots, .query, .filter, .data]
  | .update => [.roots, .query, .filter, .action]
  | .delete => [.roots, .query, .filter]

/-- The filter keywords that a request of the kind accepts. -/
def filterKeywords : Kind → List FilterKeyword
  | .select => FilterKeyword.all
  | .update | .delete => [.limit, .hint, .multiple]
  | .insert => [.hint, .multiple]

end Kind

end Fonds
