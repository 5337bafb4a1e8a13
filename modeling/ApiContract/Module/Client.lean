/-!
The function that all clients call, with the types it needs, line by line.
-/

namespace ApiContract.Module

def clientLines : List String :=
  [
    "export class HttpError extends Error \x7b",
    "  constructor(",
    "    public status: number,",
    "    public statusText: string,",
    "    public body: any",
    "  ) \x7b",
    "    super(`HTTP Error $\x7bstatus\x7d: $\x7bstatusText\x7d`);",
    "    this.name = \"HttpError\";",
    "  \x7d",
    "\x7d",
    "",
    "export interface HttpRequestArgs<",
    "  ReqBody,",
    "  ReqPathParams extends Record<string, any>,",
    "  ReqQueryParams extends Record<string, any>",
    "> \x7b",
    "  baseUrl: string;",
    "  path: string;",
    "  method: \"GET\" | \"PUT\" | \"POST\" | \"DELETE\" | \"OPTIONS\" | \"HEAD\" | \"PATCH\" | \"TRACE\";",
    "  params?: ReqPathParams;",
    "  query?: ReqQueryParams;",
    "  body?: ReqBody;",
    "  headers?: Record<string, string>;",
    "\x7d",
    "",
    "export const httpRequest = async <",
    "  ReqBody,",
    "  ReqPathParams extends Record<string, any>,",
    "  ReqQueryParams extends Record<string, any>,",
    "  ResBody",
    ">(",
    "  args: HttpRequestArgs<ReqBody, ReqPathParams, ReqQueryParams>",
    "): Promise<\x7b",
    "  status: number;",
    "  body?: ResBody;",
    "\x7d> => \x7b",
    "  const \x7b baseUrl, path, method, params = \x7b\x7d, query = \x7b\x7d, body, headers \x7d = args;",
    "",
    "  let finalPath = path;",
    "  Object.entries(params).forEach(([key, value]) => \x7b",
    "    finalPath = finalPath.replace(`\x7b$\x7bkey\x7d\x7d`, encodeURIComponent(String(value)));",
    "  \x7d);",
    "",
    "  const url = new URL(baseUrl.replace(/\\/$/, \"\") + finalPath);",
    "  Object.entries(query).forEach(([key, value]) => \x7b",
    "    if (value !== undefined && value !== null) \x7b",
    "      url.searchParams.append(key, String(value));",
    "    \x7d",
    "  \x7d);",
    "",
    "  const response = await fetch(url.toString(), \x7b",
    "    method,",
    "    body: body !== undefined ? JSON.stringify(body) : undefined,",
    "    headers: \x7b",
    "      \"Content-Type\": \"application/json\",",
    "      ...headers,",
    "    \x7d,",
    "  \x7d);",
    "",
    "  if (!response.ok) \x7b",
    "    throw new HttpError(response.status, response.statusText, await response.text());",
    "  \x7d",
    "",
    "  const text = await response.text();",
    "  if (text.length === 0) \x7b",
    "    return \x7b status: response.status \x7d;",
    "  \x7d",
    "",
    "  const contentType = response.headers.get(\"Content-Type\");",
    "  if (!contentType?.includes(\"application/json\")) \x7b",
    "    throw new HttpError(response.status, response.statusText, \"Response body is not JSON\");",
    "  \x7d",
    "",
    "  try \x7b",
    "    return \x7b status: response.status, body: JSON.parse(text) as ResBody \x7d;",
    "  \x7d catch (error) \x7b",
    "    throw new HttpError(response.status, response.statusText, \"Invalid JSON response body\");",
    "  \x7d",
    "\x7d;"
  ]

end ApiContract.Module
