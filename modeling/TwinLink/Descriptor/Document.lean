import TwinLink.Descriptor.Basic
import TwinLink.Json.Document

/-!
# The document of an interface

* `Interface.document` : what a twin is told of an interface when it is published;
* `Interface.toJson` : its text.
-/

namespace TwinLink

/-- The naming fields, which stand directly in the object of what they name. -/
def Field.fields (f : Field) : List (String × Document) :=
  [("name", .text f.name), ("display_name", .text f.displayName), ("description", .text f.description)]

def Property.document (p : Property) : Document :=
  .object (p.field.fields ++ [("units", .text p.units), ("required", .flag p.required),
    ("writeable", .flag p.writeable), ("data_schema", .text p.schema.name)])

def Command.document (c : Command) : Document :=
  .object (c.field.fields ++ [("request_schema", .text c.request.name), ("response_schema", .text c.response.name)])

def Event.document (e : Event) : Document :=
  .object (e.field.fields ++ [("units", .text e.units), ("data_schema", .text e.schema.name)])

/-- What a twin is told of an interface. -/
def Interface.document (i : Interface) : Document :=
  .object [("id", .text i.id), ("properties", .array (i.properties.map Property.document)),
    ("commands", .array (i.commands.map Command.document)), ("events", .array (i.events.map Event.document))]

def Interface.toJson (i : Interface) : String := i.document.render

end TwinLink
