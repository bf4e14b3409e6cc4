/-!
The keywords of the query language that stand for themselves. Operators, sections and the keywords
of a filter have types of their own, which hold their tokens.
-/
namespace Fonds.Keyword

def depth := "$depth"
def exactDepth := "$exactdepth"

def fields := "$fields"
def usage := "$usage"
def slice := "$slice"

def name := "$name"
def field := "$field"
def size := "$size"
def order := "$order"
def subobject := "$subobject"
def format := "$format"
def ranges := "$ranges"
def rangeFrom := "$from"
def rangeTo := "$to"
def queryFilters := "$query_filters"

def each := "$each"

/-- The hint that results may be kept. -/
def cache := "cache"

/-- The hint that a cursor is not to expire. -/
def noTimeout := "notimeout"

/-- The name that stands for every field of a document. -/
def allFields := "#all"

end Fonds.Keyword
