import ScriptBridge.Script.Compile
import ScriptBridge.Script.Parser

/-!
# ScriptBridge.Script.Prelude

Library functions written as scripts: those that read and write tables with metamethods, or
call a function for every comparison.  They work on the arguments of the script itself, and use
a few functions of their own that other scripts cannot see.
-/

namespace ScriptBridge.Script.Prelude

/-- The functions that only these scripts know. -/
def known (name : Bytes) : Option Value :=
  let names : List (String × Builtin) :=
    [("argTable", .argTable), ("argInteger", .argInteger), ("argText", .argText),
      ("argFunction", .argFunction), ("refuse", .refuse), ("fail", .fail),
      ("wholeLength", .wholeLength), ("itemText", .itemText), ("roomFor", .roomFor),
      ("spread", .spread), ("select", .select)]
  (names.find? fun e => bytes e.1 == name).map fun e => .builtin e.2

/-- The code of a library function. -/
def compile (source : String) : Proto :=
  match parse (bytes source) 0 known with
  | .ok f => f.compile ∅ true
  | .error _ => default

/-- Joins the elements of a table, with a text between them. -/
def concat : Proto := compile "
  local t = ...
  argTable('table.concat', 1, false, ...)
  local last = wholeLength(#t)
  local separator = argText('table.concat', 2, '', ...)
  local i = argInteger('table.concat', 3, 1, ...)
  last = argInteger('table.concat', 4, last, ...)
  local text = ''
  while i < last do
    text = text .. itemText(t[i], i) .. separator
    i = i + 1
  end
  if i == last then text = text .. itemText(t[i], i) end
  return text"

/-- Gives an iterator over the elements of a table up to the first that is missing. -/
def ipairs : Proto := compile "
  local t = ...
  if select('#', ...) == 0 then refuse('ipairs', 1, 'value expected') end
  return function(t, i)
    i = i + 1
    local v = t[i]
    if v ~= nil then return i, v end
    return nil
  end, t, 0"

/-- Puts an element into a table, at a position or after the last one.  Positions are compared as
numbers without a sign. -/
def insert : Proto := compile "
  local t, pos, v = ...
  argTable('table.insert', 1, true, ...)
  local free = wholeLength(#t) + 1
  local count = select('#', ...)
  if count == 2 then t[free] = pos
  elseif count == 3 then
    if pos == nil then refuse('table.insert', 2, 'number expected, got nil') end
    pos = argInteger('table.insert', 2, nil, ...)
    local before = pos - 1
    if free >= 0 and (before < 0 or before >= free) or free < 0 and before < 0 and before >= free then
      refuse('table.insert', 2, 'position out of bounds')
    end
    while free > pos do
      t[free] = t[free - 1]
      free = free - 1
    end
    t[pos] = v
  else fail(\"wrong number of arguments to 'insert'\") end"

/-- Makes a table of its arguments, with their number. -/
def pack : Proto := compile "return \x7bn = select('#', ...), ...\x7d"

/-- Takes an element out of a table; those after it move up.  Positions are compared as numbers
without a sign. -/
def remove : Proto := compile "
  local t = ...
  argTable('table.remove', 1, true, ...)
  local size = wholeLength(#t)
  local pos = argInteger('table.remove', 2, size, ...)
  local before = pos - 1
  if pos ~= size
      and (size >= 0 and (before < 0 or before > size) or size < 0 and before < 0 and before > size) then
    refuse('table.remove', 2, 'position out of bounds')
  end
  local v = t[pos]
  while pos < size do
    t[pos] = t[pos + 1]
    pos = pos + 1
  end
  t[pos] = nil
  return v"

/-- Spreads the elements of a table between two positions. -/
def unpack : Proto := compile "
  local t, _, given = ...
  local first = argInteger('table.unpack', 2, 1, ...)
  local last
  if given == nil then last = wholeLength(#t)
  else last = argInteger('table.unpack', 3, 0, ...) end
  if first > last then return end
  if not roomFor(first, last) then fail('too many results to unpack') end
  local copy, n = \x7b\x7d, 0
  for i = first, last do
    n = n + 1
    copy[n] = t[i]
  end
  return spread(copy, n)"

/-- Sorts a table by quicksort.  The pivot is the median of the first, the middle and the last
element; of the two parts the shorter one is sorted first, the other one is kept for later. -/
def sort : Proto := compile "
  local t, less = ...
  argTable('table.sort', 1, true, ...)
  local n = wholeLength(#t)
  if n < 2 then return end
  if n >= 2147483647 then refuse('table.sort', 1, 'array too big') end
  if less == nil then less = function(a, b) return a < b end
  else argFunction('table.sort', 2, nil, ...) end
  local lows, highs, kept = \x7b\x7d, \x7b\x7d, 0
  local low, high = 1, n
  while true do
    local parted = false
    if low < high then
      local a, b = t[low], t[high]
      if less(b, a) then t[low] = b t[high] = a end
      if high - low ~= 1 then
        local p = (low + high) // 2
        a = t[p]
        b = t[low]
        if less(a, b) then t[p] = b t[low] = a
        else
          b = t[high]
          if less(b, a) then t[p] = b t[high] = a end
        end
        if high - low ~= 2 then
          local pivot = t[p]
          b = t[high - 1]
          t[p] = b
          t[high - 1] = pivot
          local i, j = low, high - 1
          while true do
            i = i + 1
            a = t[i]
            while less(a, pivot) do
              if i == high - 1 then fail('invalid order function for sorting') end
              i = i + 1
              a = t[i]
            end
            j = j - 1
            b = t[j]
            while less(pivot, b) do
              if j < i then fail('invalid order function for sorting') end
              j = j - 1
              b = t[j]
            end
            if j < i then break end
            t[i] = b
            t[j] = a
          end
          t[high - 1] = a
          t[i] = pivot
          parted = true
          kept = kept + 1
          if i - low < high - i then
            lows[kept] = i + 1
            highs[kept] = high
            high = i - 1
          else
            lows[kept] = low
            highs[kept] = i - 1
            low = i + 1
          end
        end
      end
    end
    if not parted then
      if kept == 0 then return end
      low = lows[kept]
      high = highs[kept]
      kept = kept - 1
    end
  end"

end ScriptBridge.Script.Prelude
