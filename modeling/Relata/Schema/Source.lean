import Relata.Schema.Catalog

/-!
Classes as they are written: relations by declaring functions with chained calls, and entries of a
static table. They are read in the order in which they are written, and the first that fails
decides.
-/

namespace Relata

/-- A relation written as a call of a declaring function, with the calls chained to it. -/
structure RelationSource where
  function : String
  args : List Value
  named : Record
  chain : List Call

def RelationSource.read (r : RelationSource) : Except Error Declaration := do
  r.chain.foldlM Declaration.chain (← Declaration.make r.function r.args r.named)

inductive EntrySource where
  | declaration (r : RelationSource)
  /-- The fields of a descriptor. -/
  | descriptor (fields : Record)
  | value (v : Value)

def EntrySource.read : EntrySource → Except Error StaticEntry
  | declaration r => r.read.map .declaration
  | descriptor fields => (Descriptor.read fields).toExcept.map .descriptor
  | value v => .ok (.value v)

structure ClassSource where
  name : String
  key : String
  bases : Option (List String)
  fields : List Field
  relations : List (String × RelationSource)
  static : Option (List (String × EntrySource))
  scopes : List Scope
  settings : Settings

namespace ClassSource

def read (c : ClassSource) : Except Error Definition := do
  let relations ← c.relations.mapM fun (name, r) => return (name, ← r.read)
  let static ← c.static.mapM fun entries => entries.foldlM (fun there (name, e) => do
    return Catalog.put there name (← e.read)) []
  return {
    name := c.name
    key := c.key
    bases := c.bases
    fields := c.fields
    relations := relations
    static := static
    scopes := c.scopes
    settings := c.settings }

end ClassSource

/-- The catalog of classes, defined one after the other. -/
def Catalog.ofSources (classes : List ClassSource) : Except Error Catalog :=
  classes.foldlM (fun c source => do c.define (← source.read)) .empty

end Relata
