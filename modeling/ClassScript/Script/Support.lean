/-!
The support code that every complete program carries.

It is one function expression: given the object that holds the classes, it returns the
helpers which generated code calls.
-/

namespace ClassScript.Support

/-- The start: how a machine error is raised. -/
def start : List String := [
  "(function(vm) \x7b",
  "  var rt = \x7b\x7d;",
  "  var TWO32 = 4294967296;",
  "  var resources = \x7b\x7d;",
  "  var classes = \x7b\x7d;",
  "",
  "  function fail(cls, message) \x7b",
  "    var fn = vm[cls];",
  "    if (typeof fn !== 'function') \x7b",
  "      return new Error(cls.replace(/_/g, '.') + ': ' + message);",
  "    \x7d",
  "    var e = fn(true);",
  "    var cons = e['cons__VLjava_lang_String_2'];",
  "    if (cons) \x7b",
  "      cons.call(e, message);",
  "    \x7d",
  "    return e;",
  "  \x7d",
  ""]

/-- Arithmetic of 32 bits. -/
def words : List String := [
  "  rt.add32 = function(a, b) \x7b return (a + b) | 0; \x7d;",
  "  rt.sub32 = function(a, b) \x7b return (a - b) | 0; \x7d;",
  "  rt.mul32 = function(a, b) \x7b return Math.imul(a, b); \x7d;",
  "  rt.div32 = function(a, b) \x7b",
  "    if (b === 0) \x7b",
  "      throw fail('java_lang_ArithmeticException', '/ by zero');",
  "    \x7d",
  "    return (a / b) | 0;",
  "  \x7d;",
  "  rt.mod32 = function(a, b) \x7b",
  "    if (b === 0) \x7b",
  "      throw fail('java_lang_ArithmeticException', '/ by zero');",
  "    \x7d",
  "    return (a % b) | 0;",
  "  \x7d;",
  "  rt.neg32 = function(a) \x7b return (-a) | 0; \x7d;",
  "  rt.toInt8 = function(a) \x7b return (a << 24) >> 24; \x7d;",
  "  rt.toInt16 = function(a) \x7b return (a << 16) >> 16; \x7d;",
  "  rt.toChar = function(a) \x7b return a & 65535; \x7d;",
  ""]

/-- Integers of 64 bits as two words, and conversions. -/
def longs : List String := [
  "  function long(hi, lo) \x7b return \x7b hi: hi | 0, lo: lo >>> 0 \x7d; \x7d",
  "  var ZERO = long(0, 0);",
  "  rt.long = long;",
  "  rt.i2l = function(a) \x7b return long(a < 0 ? -1 : 0, a); \x7d;",
  "  rt.l2i = function(a) \x7b return a.lo | 0; \x7d;",
  "  rt.l2d = function(a) \x7b return a.hi * TWO32 + a.lo; \x7d;",
  "  rt.d2i = function(d) \x7b",
  "    if (d !== d) return 0;",
  "    if (d >= 2147483647) return 2147483647;",
  "    if (d <= -2147483648) return -2147483648;",
  "    return d | 0;",
  "  \x7d;",
  "  rt.d2l = function(d) \x7b",
  "    if (d !== d) return ZERO;",
  "    if (d >= 9223372036854775807) return long(0x7fffffff, 0xffffffff);",
  "    if (d <= -9223372036854775808) return long(0x80000000, 0);",
  "    var negative = d < 0;",
  "    var m = Math.floor(negative ? -d : d);",
  "    var r = long(Math.floor(m / TWO32), m % TWO32);",
  "    return negative ? rt.neg64(r) : r;",
  "  \x7d;",
  "  rt.add64 = function(a, b) \x7b",
  "    var lo = a.lo + b.lo;",
  "    return long(a.hi + b.hi + (lo >= TWO32 ? 1 : 0), lo);",
  "  \x7d;",
  "  rt.neg64 = function(a) \x7b return rt.add64(long(~a.hi, ~a.lo), long(0, 1)); \x7d;",
  "  rt.sub64 = function(a, b) \x7b return rt.add64(a, rt.neg64(b)); \x7d;"]

/-- Multiplication of 64 bits in four parts. -/
def longMul : List String := [
  "  rt.mul64 = function(a, b) \x7b",
  "    var a48 = a.hi >>> 16, a32 = a.hi & 0xffff, a16 = a.lo >>> 16, a00 = a.lo & 0xffff;",
  "    var b48 = b.hi >>> 16, b32 = b.hi & 0xffff, b16 = b.lo >>> 16, b00 = b.lo & 0xffff;",
  "    var c48 = 0, c32 = 0, c16 = 0, c00 = 0;",
  "    c00 += a00 * b00; c16 += c00 >>> 16; c00 &= 0xffff;",
  "    c16 += a16 * b00; c32 += c16 >>> 16; c16 &= 0xffff;",
  "    c16 += a00 * b16; c32 += c16 >>> 16; c16 &= 0xffff;",
  "    c32 += a32 * b00; c48 += c32 >>> 16; c32 &= 0xffff;",
  "    c32 += a16 * b16; c48 += c32 >>> 16; c32 &= 0xffff;",
  "    c32 += a00 * b32; c48 += c32 >>> 16; c32 &= 0xffff;",
  "    c48 += a48 * b00 + a32 * b16 + a16 * b32 + a00 * b48;",
  "    c48 &= 0xffff;",
  "    return long((c48 << 16) | c32, (c16 << 16) | c00);",
  "  \x7d;"]

/-- Division of 64 bits, a bit at a time. -/
def longDiv : List String := [
  "  function unsignedCompare(a, b) \x7b",
  "    var ah = a.hi >>> 0, bh = b.hi >>> 0;",
  "    if (ah !== bh) return ah < bh ? -1 : 1;",
  "    if (a.lo === b.lo) return 0;",
  "    return a.lo < b.lo ? -1 : 1;",
  "  \x7d",
  "  function divide(a, b) \x7b",
  "    if (b.hi === 0 && b.lo === 0) \x7b",
  "      throw fail('java_lang_ArithmeticException', '/ by zero');",
  "    \x7d",
  "    var n = a.hi < 0 ? rt.neg64(a) : a;",
  "    var d = b.hi < 0 ? rt.neg64(b) : b;",
  "    var q = ZERO, r = ZERO;",
  "    for (var i = 63; i >= 0; i--) \x7b",
  "      r = rt.shl64(r, 1);",
  "      var bit = i >= 32 ? (n.hi >>> (i - 32)) & 1 : (n.lo >>> i) & 1;",
  "      r = long(r.hi, r.lo | bit);",
  "      if (unsignedCompare(r, d) >= 0) \x7b",
  "        r = rt.sub64(r, d);",
  "        q = i >= 32 ? long(q.hi | (1 << (i - 32)), q.lo) : long(q.hi, q.lo | (1 << i));",
  "      \x7d",
  "    \x7d",
  "    return [q, r];",
  "  \x7d",
  "  rt.div64 = function(a, b) \x7b",
  "    var q = divide(a, b)[0];",
  "    return (a.hi < 0) !== (b.hi < 0) ? rt.neg64(q) : q;",
  "  \x7d;",
  "  rt.mod64 = function(a, b) \x7b",
  "    var r = divide(a, b)[1];",
  "    return a.hi < 0 ? rt.neg64(r) : r;",
  "  \x7d;"]

/-- Shifts of 64 bits, and comparisons. -/
def longShift : List String := [
  "  rt.and64 = function(a, b) \x7b return long(a.hi & b.hi, a.lo & b.lo); \x7d;",
  "  rt.or64 = function(a, b) \x7b return long(a.hi | b.hi, a.lo | b.lo); \x7d;",
  "  rt.xor64 = function(a, b) \x7b return long(a.hi ^ b.hi, a.lo ^ b.lo); \x7d;",
  "  rt.shl64 = function(a, n) \x7b",
  "    n &= 63;",
  "    if (n === 0) return a;",
  "    if (n < 32) return long((a.hi << n) | (a.lo >>> (32 - n)), a.lo << n);",
  "    return long(a.lo << (n - 32), 0);",
  "  \x7d;",
  "  rt.shr64 = function(a, n) \x7b",
  "    n &= 63;",
  "    if (n === 0) return a;",
  "    if (n < 32) return long(a.hi >> n, (a.lo >>> n) | (a.hi << (32 - n)));",
  "    return long(a.hi >> 31, a.hi >> (n - 32));",
  "  \x7d;",
  "  rt.ushr64 = function(a, n) \x7b",
  "    n &= 63;",
  "    if (n === 0) return a;",
  "    if (n < 32) return long(a.hi >>> n, (a.lo >>> n) | (a.hi << (32 - n)));",
  "    return long(0, a.hi >>> (n - 32));",
  "  \x7d;",
  "  rt.compare64 = function(a, b) \x7b",
  "    if (a.hi !== b.hi) return a.hi < b.hi ? -1 : 1;",
  "    if (a.lo === b.lo) return 0;",
  "    return a.lo < b.lo ? -1 : 1;",
  "  \x7d;",
  "  rt.fcmp = function(a, b, nan) \x7b",
  "    if (a !== a || b !== b) return nan;",
  "    return a < b ? -1 : (a > b ? 1 : 0);",
  "  \x7d;",
  ""]

/-- Arrays, which know their type. -/
def arrays : List String := [
  "  rt.newArray = function(descriptor, length) \x7b",
  "    if (length < 0) \x7b",
  "      throw fail('java_lang_NegativeArraySizeException', '' + length);",
  "    \x7d",
  "    var element = descriptor.charAt(1);",
  "    var initial = element === 'L' || element === '[' ? null : (element === 'J' ? ZERO : 0);",
  "    var array = new Array(length);",
  "    for (var i = 0; i < length; i++) \x7b",
  "      array[i] = initial;",
  "    \x7d",
  "    array.jvmName = descriptor;",
  "    return array;",
  "  \x7d;",
  "  function multi(descriptor, counts, level) \x7b",
  "    var array = rt.newArray(descriptor.substring(level), counts[level]);",
  "    if (level + 1 < counts.length) \x7b",
  "      for (var i = 0; i < array.length; i++) \x7b",
  "        array[i] = multi(descriptor, counts, level + 1);",
  "      \x7d",
  "    \x7d",
  "    return array;",
  "  \x7d",
  "  rt.multiArray = function(descriptor, counts) \x7b return multi(descriptor, counts, 0); \x7d;",
  "  function checkIndex(array, index) \x7b",
  "    if (index < 0 || index >= array.length) \x7b",
  "      throw fail('java_lang_ArrayIndexOutOfBoundsException', '' + index);",
  "    \x7d",
  "  \x7d",
  "  rt.at = function(array, index) \x7b",
  "    checkIndex(array, index);",
  "    return array[index];",
  "  \x7d;",
  "  rt.put = function(array, index, value) \x7b",
  "    checkIndex(array, index);",
  "    array[index] = value;",
  "  \x7d;",
  ""]

/-- Tests of types, and interfaces as sources of methods. -/
def types : List String := [
  "  function instanceOf(obj, name, flag) \x7b",
  "    if (obj === null || obj === undefined) return false;",
  "    if (flag) return !!obj[flag];",
  "    if (!obj.jvmName) return false;",
  "    if (obj.jvmName === name) return true;",
  "    var depth = name.lastIndexOf('[') + 1;",
  "    return depth === obj.jvmName.lastIndexOf('[') + 1 && name.charAt(depth) === 'L' && obj.jvmName.charAt(depth) === 'L';",
  "  \x7d",
  "  rt.isInstance = function(obj, name, flag) \x7b return instanceOf(obj, name, flag) ? 1 : 0; \x7d;",
  "  rt.checkCast = function(obj, name, flag) \x7b",
  "    if (obj !== null && obj !== undefined && !instanceOf(obj, name, flag)) \x7b",
  "      throw fail('java_lang_ClassCastException', name.replace(/\\//g, '.'));",
  "    \x7d",
  "    return obj;",
  "  \x7d;",
  "  rt.implement = function(c, ip) \x7b",
  "    for (var key in ip) \x7b",
  "      if (key.indexOf('$instOf_') === 0) \x7b",
  "        c[key] = true;",
  "      \x7d else if (key !== 'constructor' && typeof ip[key] === 'function' && !(key in c)) \x7b",
  "        c[key] = ip[key];",
  "      \x7d",
  "    \x7d",
  "  \x7d;",
  "  rt.throwable = function(e) \x7b",
  "    if (e && e.$instOf_java_lang_Throwable) return e;",
  "    if (e === null || e === undefined) return fail('java_lang_NullPointerException', 'throw null');",
  "    if (e instanceof TypeError) return fail('java_lang_NullPointerException', e.message);",
  "    return e;",
  "  \x7d;",
  ""]

/-- Classes found by name at run time. -/
def names : List String := [
  "  rt.mangleClass = function(name) \x7b",
  "    var out = '';",
  "    for (var i = 0; i < name.length; i++) \x7b",
  "      var ch = name.charAt(i);",
  "      if (ch === '/' || ch === '.') out += '_';",
  "      else if (ch === '_') out += '_1';",
  "      else if (ch === ';') out += '_2';",
  "      else if (ch === '[') out += '_3';",
  "      else if (/[A-Za-z0-9$]/.test(ch)) out += ch;",
  "      else out += '_0' + ('000' + ch.charCodeAt(0).toString(16)).slice(-4);",
  "    \x7d",
  "    return out;",
  "  \x7d;",
  "  rt.lazy = function(vm, name, prop, args) \x7b",
  "    var stub = vm[prop];",
  "    if (vm.$loader) \x7b",
  "      vm.$loader(name.replace(/\\//g, '.'));",
  "    \x7d",
  "    if (vm[prop] === stub) \x7b",
  "      throw new Error('java.lang.NoClassDefFoundError: ' + name);",
  "    \x7d",
  "    return vm[prop].apply(null, args);",
  "  \x7d;",
  "  rt.classFor = function(vm, descriptor) \x7b",
  "    var found = classes[descriptor];",
  "    if (!found) \x7b",
  "      found = classes[descriptor] = vm.java_lang_Class(true);",
  "      found.jvmName = descriptor;",
  "      found.primitive = descriptor.charAt(0) !== '[';",
  "    \x7d",
  "    return found;",
  "  \x7d;",
  ""]

/-- Annotations as objects. -/
def annotations : List String := [
  "  function decode(d) \x7b",
  "    switch (d[0]) \x7b",
  "      case 'Z': return d[1] !== 0;",
  "      case 'e': return vm[d[1]](false)[d[2]];",
  "      case 'c': return d.length > 2 ? vm[d[2]](false).constructor.$class : rt.classFor(vm, d[1]);",
  "      case '@': return rt.annotation(d[2]);",
  "      case '[': return d[1].map(decode);",
  "      default: return d[1];",
  "    \x7d",
  "  \x7d",
  "  rt.annotation = function(props) \x7b",
  "    var proxy = \x7b\x7d;",
  "    Object.keys(props).forEach(function(name) \x7b",
  "      proxy[name] = function() \x7b return decode(props[name]); \x7d;",
  "    \x7d);",
  "    return proxy;",
  "  \x7d;",
  ""]

/-- Embedded data, and the end. -/
def data : List String := [
  "  var ALPHABET = 'ABCDEFGHIJKLMNOPQRSTUVWXYZabcdefghijklmnopqrstuvwxyz0123456789+/';",
  "  rt.resource = function(name, data) \x7b resources[name] = data; \x7d;",
  "  rt.resourceText = function(name) \x7b",
  "    return Object.prototype.hasOwnProperty.call(resources, name) ? resources[name] : null;",
  "  \x7d;",
  "  rt.resourceBytes = function(name) \x7b",
  "    var data = rt.resourceText(name);",
  "    if (data === null) return null;",
  "    var bytes = [];",
  "    var bits = 0, value = 0;",
  "    for (var i = 0; i < data.length; i++) \x7b",
  "      var v = ALPHABET.indexOf(data.charAt(i));",
  "      if (v < 0) continue;",
  "      value = (value << 6) | v;",
  "      bits += 6;",
  "      if (bits >= 8) \x7b",
  "        bits -= 8;",
  "        bytes.push(rt.toInt8((value >> bits) & 255));",
  "        value &= (1 << bits) - 1;",
  "      \x7d",
  "    \x7d",
  "    bytes.jvmName = '[B';",
  "    return bytes;",
  "  \x7d;",
  "  return rt;",
  "\x7d)"]

def text : String :=
  "\n".intercalate (
    start ++
    words ++
    longs ++
    longMul ++
    longDiv ++
    longShift ++
    arrays ++
    types ++
    names ++
    annotations ++
    data)

end ClassScript.Support
