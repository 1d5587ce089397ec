/-! # The prelude

Every session starts with a small program of its own: the classes whose instances give lists and
strings their properties. -/

namespace ScopedScript.Prelude

/-- The name under which the prelude appears in reports. -/
def name : String := "<prelude>"

/-- The lines of the prelude. -/
def lines : List String :=
  ["// Wrapper classes backing property access on lists and strings.",
   "// `xs.length()` is evaluated as `Array(xs).length()`.",
   "",
   "class Array \x7b",
   "  constructor(value: any[]) \x7b",
   "    this.value = value",
   "  \x7d",
   "",
   "  length(): number \x7b",
   "    return len(this.value)",
   "  \x7d",
   "",
   "  isEmpty(): boolean \x7b",
   "    return len(this.value) == 0",
   "  \x7d",
   "",
   "  push(item: any): number \x7b",
   "    return push(this.value, item)",
   "  \x7d",
   "",
   "  get(index: number): any \x7b",
   "    let values = this.value",
   "    return values[index]",
   "  \x7d",
   "",
   "  map(callback: (item: any) => any): any[] \x7b",
   "    return map(this.value, callback)",
   "  \x7d",
   "",
   "  forEach(callback: (item: any) => void): void \x7b",
   "    let values = this.value",
   "    let i = 0",
   "    while (i < len(values)) \x7b",
   "      callback(values[i])",
   "      i++",
   "    \x7d",
   "  \x7d",
   "\x7d",
   "",
   "class String \x7b",
   "  constructor(value: string) \x7b",
   "    this.value = value",
   "  \x7d",
   "",
   "  length(): number \x7b",
   "    return len(this.value)",
   "  \x7d",
   "",
   "  isEmpty(): boolean \x7b",
   "    return len(this.value) == 0",
   "  \x7d",
   "",
   "  concat(other: string): string \x7b",
   "    return this.value + other",
   "  \x7d",
   "\x7d"]

/-- The text of the prelude. -/
def source : String := String.join (lines.map (· ++ "\n"))

end ScopedScript.Prelude
